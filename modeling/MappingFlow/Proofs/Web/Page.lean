/-
  MappingFlow.Proofs.Web.Page — what a run of a page leaves, however it ends.

  A page mostly draws, and drawing changes neither the session nor the files. A frame is a
  relation between screens that drawing cannot break (`Frame`), and `Moves w R p` says that
  `R` relates every screen to the one that `p` leaves there. Each way to build a page has
  one instance, so that of a page made of drawing elements the relation is found by
  instance search, and only what enters something in the session or writes a file needs an
  argument. A slot that a frame does not look at is one it allows to be set (`Allows`).

  `Page.Ensures w P p Q L` is for the parts whose answer matters: begun where `P` holds,
  the part ends with `Q` of its answer, or is left early with `L`.
-/

import MappingFlow.Web.Page

namespace MappingFlow.Web

variable {α β : Type} {f : α → Page β}

/-! ## One run after another -/

namespace Page

theorem runOn_bind (x : Page α) (f : α → Page β) (w : Surroundings) (s : Screen) :
    (x >>= f).runOn w s = match x.runOn w s with
      | (.ok a, t) => (f a).runOn w t
      | (.error l, t) => (.error l, t) := by
  unfold Page.runOn
  rw [ReaderT.run_bind, ExceptT.run_bind, StateT.run_bind]
  change (match (x.run w).run.run s with | (e, t) => _) = _
  rcases (x.run w).run.run s with ⟨l | a, t⟩ <;> rfl

theorem runOn_attempt (x : Page α) (w : Surroundings) (s : Screen) : (attempt x).runOn w s = match x.runOn w s with
      | (.ok a, t) => (.ok (.ok a), t)
      | (.error (.fault f), t) => (.ok (.error f), t)
      | (.error l, t) => (.error l, t) := by
  have hrun : (attempt x).runOn w s = StateT.run (ReaderT.run (attempt x) w).run s := rfl
  have hx : StateT.run (x w).run s = x.runOn w s := rfl
  rw [hrun]
  simp only [attempt, ReaderT.run, ExceptT.run_mk, StateT.run_bind, hx]
  rcases x.runOn w s with ⟨l | a, t⟩
  · cases l <;> rfl
  · rfl

theorem runOn_lift (e : Except Fault α) : (liftM e : Page α).runOn w s = (e.mapError .fault, s) := by
  cases e <;> rfl

theorem runOn_bind_ok (h : x.runOn w s = (.ok a, t)) : (x >>= f).runOn w s = (f a).runOn w t := by
  rw [runOn_bind, h]

theorem runOn_bind_error (h : x.runOn w s = (.error l, t)) : (x >>= f).runOn w s = (.error l, t) := by
  rw [runOn_bind, h]

theorem ok_of_runOn_bind (h : (x >>= f).runOn w s = (.ok b, u)) :
    ∃ a t, x.runOn w s = (.ok a, t) ∧ (f a).runOn w t = (.ok b, u) := by
  rw [runOn_bind] at h
  generalize x.runOn w s = o at h ⊢
  obtain ⟨l | a, t⟩ := o
  · cases h
  · exact ⟨a, t, rfl, h⟩

theorem error_of_runOn_bind (h : (x >>= f).runOn w s = (.error l, u)) :
    x.runOn w s = (.error l, u) ∨ ∃ a t, x.runOn w s = (.ok a, t) ∧ (f a).runOn w t = (.error l, u) := by
  rw [runOn_bind] at h
  generalize x.runOn w s = o at h ⊢
  obtain ⟨l' | a, t⟩ := o
  · cases h
    exact .inl rfl
  · exact .inr ⟨a, t, rfl, h⟩

theorem runOn_draw_bind (kind : String) (arguments : List Shown) (options : List (String × Shown))
    (f : Unit → Page α) : (draw kind arguments options >>= f).runOn w s =
      (f ()).runOn w { s with elements := s.elements ++ [⟨kind, arguments, options⟩] } := rfl

theorem runOn_session_bind (f : Session → Page α) : (session >>= f).runOn w s = (f s.session).runOn w s := rfl

end Page

/-! ## Frames -/

/-- A relation between screens that drawing cannot break. -/
class Frame (R : Screen → Screen → Prop) : Prop where
  refl (s : Screen) : R s s
  trans {s t u : Screen} : R s t → R t u → R s u
  drawn (s : Screen) (es : List Element) : R s { s with elements := es }

/-- Whatever is entered in the slot, the relation holds. -/
class Allows (R : Screen → Screen → Prop) (k : Slot) : Prop where
  allows (s : Screen) (v : Value) : R s { s with session := s.session.set k v }

class Moves (w : Surroundings) (R : Screen → Screen → Prop) (p : Page α) : Prop where
  moves (s : Screen) : R s (p.runOn w s).2

variable {R : Screen → Screen → Prop} [Frame R]

namespace Moves

theorem bind (hx : Moves w R x) (hf : ∀ a, Moves w R (f a)) : Moves w R (x >>= f) := by
  refine ⟨fun s => ?_⟩
  have hfirst := hx.moves s
  rw [Page.runOn_bind]
  generalize x.runOn w s = o at hfirst ⊢
  obtain ⟨l | a, t⟩ := o
  · exact hfirst
  · exact Frame.trans hfirst ((hf a).moves t)

theorem after [hx : Moves w R x] (hf : ∀ a, Moves w R (f a)) : Moves w R (x >>= f) := hx.bind hf

omit [Frame R] in
theorem attempt (hx : Moves w R x) : Moves w R (attempt x) := by
  refine ⟨fun s => ?_⟩
  have hbody := hx.moves s
  rw [Page.runOn_attempt]
  generalize x.runOn w s = o at hbody ⊢
  obtain ⟨l | a, t⟩ := o
  · cases l <;> exact hbody
  · exact hbody

end Moves

instance pure_moves (a : α) : Moves w R (pure a : Page α) := ⟨Frame.refl⟩

instance (l : Leave) : Moves w R (throw l : Page α) := ⟨Frame.refl⟩

instance : Moves w R (read : Page Surroundings) := ⟨Frame.refl⟩

instance : Moves w R (get : Page Screen) := ⟨Frame.refl⟩

instance (e : Except Fault α) : Moves w R (liftM e : Page α) :=
  ⟨fun s => by rw [Page.runOn_lift]; exact Frame.refl s⟩

instance (x : Page α) (f : α → Page β) [hx : Moves w R x] [hf : ∀ a, Moves w R (f a)] :
    Moves w R (x >>= f) := .bind hx hf

instance (c : Prop) [Decidable c] (x y : Page α) [hx : Moves w R x] [hy : Moves w R y] :
    Moves w R (if c then x else y) := by
  split
  · exact hx
  · exact hy

instance (xs : List β) (f : β → Page PUnit) [hf : ∀ b, Moves w R (f b)] : Moves w R (xs.forM f) := by
  induction xs with
  | nil => exact pure_moves _
  | cons x xs ih => exact .bind (hf x) fun _ => ih

theorem Moves.mapM {xs : List β} {f : β → Page α} (hf : ∀ b ∈ xs, Moves w R (f b)) : Moves w R (xs.mapM f) := by
  induction xs with
  | nil => exact pure_moves _
  | cons x xs ih =>
    rw [List.mapM_cons]
    refine .bind (hf x List.mem_cons_self) fun _ => .bind (ih fun b hb => ?_) fun _ => pure_moves _
    exact hf b (List.mem_cons_of_mem x hb)

instance (xs : List β) (f : β → Page α) [hf : ∀ b, Moves w R (f b)] : Moves w R (xs.mapM f) :=
  .mapM fun b _ => hf b

instance (x : Page α) [hx : Moves w R x] : Moves w R (attempt x) := hx.attempt

omit [Frame R] in
theorem Moves.setSlot [h : Allows R k] (v : Value) : Moves w R (setSlot k v) := ⟨fun s => h.allows s v⟩

instance (k : Slot) (v : Value) [Allows R k] : Moves w R (setSlot k v) := .setSlot v

/-! ## Elements -/

instance draw_moves (kind : String) (arguments : List Shown) (options : List (String × Shown)) :
    Moves w R (draw kind arguments options) := ⟨fun s => Frame.drawn s _⟩

section

variable (kind t name label hint : String) (options : List (String × Shown)) (v : Value) (n : Nat)

instance : Moves w R (drawText kind t) := draw_moves ..
instance : Moves w R (header t) := draw_moves ..
instance : Moves w R (subheader t) := draw_moves ..
instance : Moves w R (markdown t) := draw_moves ..
instance : Moves w R rule := draw_moves ..
instance : Moves w R (success t) := draw_moves ..
instance : Moves w R (info t) := draw_moves ..
instance : Moves w R (warning t) := draw_moves ..
instance showError_moves : Moves w R (showError t) := draw_moves ..
instance : Moves w R (plainText t) := draw_moves ..
instance : Moves w R (caption t) := draw_moves ..
instance : Moves w R (html t) := draw_moves ..
instance : Moves w R (code v t) := draw_moves ..
instance : Moves w R (showJson v) := draw_moves ..
instance : Moves w R balloons := draw_moves ..
instance : Moves w R (columns n) := draw_moves ..
instance (widths : List Nat) : Moves w R (columnsOf widths) := draw_moves ..
instance : Moves w R (downloadButton label options) := draw_moves ..

instance : Moves w R (stopRun : Page α) := by unfold stopRun; infer_instance
instance : Moves w R (runAgain : Page α) := by unfold runAgain; infer_instance

/-- What follows a stop does not matter. -/
instance (f : β → Page α) : Moves w R (stopRun >>= f) :=
  ⟨fun s => Frame.drawn s _⟩

instance : Moves w R session := by unfold session; infer_instance
instance (k : Slot) : Moves w R (require k) := by unfold require; infer_instance
instance : Moves w R visitor := by unfold visitor; infer_instance
omit [Frame R] in
theorem Moves.visitor_bind {f : Visitor → Page α} (hf : Moves w R (f w.visitor)) : Moves w R (visitor >>= f) :=
  ⟨fun s => hf.moves s⟩

instance : Moves w R (choice name v) := by unfold choice; infer_instance
instance buttonBy_moves : Moves w R (buttonBy name label options) := by unfold buttonBy; infer_instance
instance : Moves w R (button label options) := buttonBy_moves ..
instance : Moves w R (keyedButton name label options) := buttonBy_moves ..
instance : Moves w R (textInput name label hint v) := by unfold textInput; infer_instance
instance : Moves w R (checkbox name label hint v) := by unfold checkbox; infer_instance
instance (ts : List String) : Moves w R (radio name label ts) := by unfold radio; infer_instance
instance (vs : List Value) : Moves w R (selectBox name label vs n options) := by
  unfold selectBox; infer_instance

variable (x : Page α) [hx : Moves w R x]

instance within_moves (region : List Value) : Moves w R (within region x) := by
  unfold within
  refine .after fun _ => .bind hx.attempt fun outcome => ?_
  cases outcome <;> infer_instance

instance inColumn_moves : Moves w R (inColumn n x) := within_moves ..
instance : Moves w R (inTab n x) := within_moves ..
instance : Moves w R (inSidebar x) := within_moves ..
instance : Moves w R (inExpander label options x) := by unfold inExpander; infer_instance
instance : Moves w R (inSpinner label x) := by unfold inSpinner; infer_instance

end

/-! ## Before and after -/

/-- Neither the session nor the files change. -/
def Unmoved (s t : Screen) : Prop := t.session = s.session ∧ t.storage = s.storage

instance : Frame Unmoved where
  refl _ := ⟨rfl, rfl⟩
  trans h h' := ⟨h'.1.trans h.1, h'.2.trans h.2⟩
  drawn _ _ := ⟨rfl, rfl⟩

/-- What holds of the session and the files goes on holding. -/
def Keeps (J : Session → Storage → Prop) (s t : Screen) : Prop := J s.session s.storage → J t.session t.storage

instance (J : Session → Storage → Prop) : Frame (Keeps J) where
  refl _ := id
  trans h h' := h' ∘ h
  drawn _ _ := id

/-- Begun where `P` holds, the part ends with `Q` of its answer or is left early with `L`. -/
structure Page.Ensures (w : Surroundings) (P : Session → Storage → Prop) (p : Page α)
    (Q : α → Session → Storage → Prop) (L : Session → Storage → Prop) : Prop where
  ok : ∀ s a t, P s.session s.storage → p.runOn w s = (.ok a, t) → Q a t.session t.storage
  left : ∀ s l t, P s.session s.storage → p.runOn w s = (.error l, t) → L t.session t.storage

namespace Page.Ensures

variable {P L : Session → Storage → Prop} {Q : α → Session → Storage → Prop} {K : β → Session → Storage → Prop}

/-- What has been answered, or left early. -/
def Ended (Q : α → Session → Storage → Prop) (L : Session → Storage → Prop) : Except Leave α × Screen → Prop
  | (.ok a, t) => Q a t.session t.storage
  | (.error _, t) => L t.session t.storage

theorem of_ended (h : ∀ s : Screen, P s.session s.storage → Ended Q L (x.runOn w s)) : Ensures w P x Q L where
  ok s a t hs hrun := by
    have hended := h s hs
    rwa [hrun] at hended
  left s l t hs hrun := by
    have hended := h s hs
    rwa [hrun] at hended

theorem ended (h : Ensures w P x Q L) (hs : P s.session s.storage) : Ended Q L (x.runOn w s) := by
  cases hrun : x.runOn w s with
  | mk o t =>
    cases o with
    | ok a => exact h.ok s a t hs hrun
    | error l => exact h.left s l t hs hrun

theorem bind (hx : Ensures w P x Q L) (hf : ∀ a, Ensures w (Q a) (f a) K L) : Ensures w P (x >>= f) K L := by
  refine of_ended fun s hs => ?_
  have hfirst := hx.ended hs
  rw [runOn_bind]
  generalize x.runOn w s = o at hfirst ⊢
  obtain ⟨l | a, t⟩ := o
  · exact hfirst
  · exact (hf a).ended hfirst

theorem weaken {P' L' : Session → Storage → Prop} {Q' : α → Session → Storage → Prop} (hx : Ensures w P' x Q' L')
    (hP : ∀ s r, P s r → P' s r) (hQ : ∀ a s r, Q' a s r → Q a s r) (hL : ∀ s r, L' s r → L s r) :
    Ensures w P x Q L where
  ok s a t hs hrun := hQ _ _ _ (hx.ok s a t (hP _ _ hs) hrun)
  left s l t hs hrun := hL _ _ (hx.left s l t (hP _ _ hs) hrun)

theorem of_moves {J : Session → Storage → Prop} (h : Moves w (Keeps J) x) : Ensures w J x (fun _ => J) J := by
  refine of_ended fun s hs => ?_
  have hmoved := h.moves s hs
  generalize x.runOn w s = o at hmoved ⊢
  obtain ⟨l | a, t⟩ := o <;> exact hmoved

/-- What only draws can stand anywhere. -/
theorem of_unmoved [h : Moves w Unmoved x] (hL : ∀ s r, P s r → L s r) : Ensures w P x (fun _ => P) L := by
  have hkeeps : Moves w (Keeps P) x := ⟨fun s hs => by rw [(h.moves s).1, (h.moves s).2]; exact hs⟩
  exact (of_moves hkeeps).weaken (fun _ _ h => h) (fun _ _ _ h => h) hL

theorem after [Moves w Unmoved x] (hL : ∀ s r, P s r → L s r) (hf : ∀ a, Ensures w P (f a) K L) :
    Ensures w P (x >>= f) K L := .bind (.of_unmoved hL) hf

/-- However the part ends. -/
theorem run (h : Ensures w P x (fun _ => L) L) (hs : P s.session s.storage) :
    L (x.runOn w s).2.session (x.runOn w s).2.storage := by
  have hended := h.ended hs
  generalize x.runOn w s = o at hended ⊢
  obtain ⟨l | a, t⟩ := o <;> exact hended

theorem moves {J : Session → Storage → Prop} (h : Ensures w J x (fun _ => J) J) : Moves w (Keeps J) x := ⟨fun _ => h.run⟩

theorem pure (h : ∀ s r, P s r → Q a s r) : Ensures w P (pure a) Q L := of_ended fun _ => h _ _

theorem throw_bind (h : ∀ s r, P s r → L s r) : Ensures w P (throw l >>= f) K L := of_ended fun _ => h _ _

theorem throw (h : ∀ s r, P s r → L s r) : Ensures w P (throw l) Q L := of_ended fun _ => h _ _

theorem lift {e : Except Fault α} (h : ∀ a, e = .ok a → ∀ s r, P s r → Q a s r) (hL : ∀ s r, P s r → L s r) :
    Ensures w P (liftM e) Q L := by
  refine of_ended fun s hs => ?_
  rw [runOn_lift]
  cases e with
  | error f => exact hL _ _ hs
  | ok a => exact h a rfl _ _ hs

theorem bind_ok {e : Except Fault α} (he : e = .ok a) (hf : Ensures w P (f a) K L) :
    Ensures w P (liftM e >>= f) K L := by
  subst he
  exact of_ended fun _ => hf.ended

theorem read_bind {f : Surroundings → Page β} (h : Ensures w P (f w) K L) : Ensures w P (read >>= f) K L :=
  of_ended fun _ => h.ended

theorem session_bind {f : Session → Page β} (h : ∀ s, Ensures w (fun s' r => P s' r ∧ s' = s) (f s) K L) :
    Ensures w P (session >>= f) K L :=
  of_ended fun s hs => (h s.session).ended ⟨hs, rfl⟩

theorem get_bind {f : Screen → Page β}
    (h : ∀ s : Screen, Ensures w (fun s' r => P s' r ∧ s' = s.session ∧ r = s.storage) (f s) K L) :
    Ensures w P (get >>= f) K L :=
  of_ended fun s hs => (h s).ended ⟨hs, rfl, rfl⟩

section Storing

variable {e : Screen → Except Fault Storage} {Q : Session → Storage → Prop} (hL : ∀ s r, P s r → L s r)
  (he : ∀ (s : Screen) r, P s.session s.storage → e s = .ok r → Q s.session r)

include hL he

/-- Files are changed, unless that fails. -/
theorem storing_bind {k : Screen → Storage → PUnit → Page β} (hk : ∀ s r u, Ensures w Q (k s r u) K L) : Ensures w P (do
      let s ← get
      let r ← e s
      let u ← set { s with storage := r }
      k s r u) K L := by
  refine of_ended fun s hs => ?_
  change Ended K L ((liftM (e s) >>= fun r => set { s with storage := r } >>= k s r : Page β).runOn w s)
  cases hr : e s with
  | error f => exact hL _ _ hs
  | ok r => exact (hk s r ⟨⟩).ended (s := { s with storage := r }) (he s r hs hr)

theorem storing : Ensures w P (do
    let s ← get
    let r ← e s
    set { s with storage := r }) (fun _ => Q) L :=
  storing_bind (k := fun _ _ u => Pure.pure u) hL he fun _ _ _ => pure fun _ _ h => h

end Storing

theorem modify_storage {g : Storage → Storage} {Q : Unit → Session → Storage → Prop}
    (h : ∀ s r, P s r → Q () s (g r)) : Ensures w P (modify fun s => { s with storage := g s.storage }) Q L :=
  of_ended fun _ => h _ _

theorem change {Q : Unit → Session → Storage → Prop} (h : ∀ s r, P s r → Q () (g s) r) :
    Ensures w P (change g) Q L := of_ended fun _ => h _ _

theorem setSlot {Q : Unit → Session → Storage → Prop} (h : ∀ s r, P s r → Q () (s.set k v) r) :
    Ensures w P (setSlot k v) Q L := change h

theorem require {Q : Value → Session → Storage → Prop} (h : ∀ v s r, P s r → s.get? k = some v → Q v s r)
    (hL : ∀ s r, P s r → L s r) : Ensures w P (require k) Q L := by
  refine .session_bind fun s => .lift (fun v hv s' r hs => ?_) fun s' r hs => hL s' r hs.1
  obtain ⟨hs, rfl⟩ := hs
  refine h v s' r hs ?_
  unfold Session.require at hv
  split at hv
  · rename_i old hold
    rw [hold, Except.ok.inj hv]
  · cases hv

theorem exists_pre {ι : Type} {P : ι → Session → Storage → Prop} (h : ∀ i, Ensures w (P i) x Q L) :
    Ensures w (fun s r => ∃ i, P i s r) x Q L :=
  of_ended fun _ hs => hs.elim fun i hi => (h i).ended hi

/-- A fact that the precondition gives can be taken out of it. -/
theorem of_pre {φ : Prop} (hφ : ∀ s r, P s r → φ) (h : φ → Ensures w P x Q L) : Ensures w P x Q L :=
  of_ended fun _ hs => (h (hφ _ _ hs)).ended hs

/-- More may hold than is needed. -/
theorem pre (P' : Session → Storage → Prop) (hP : ∀ s r, P s r → P' s r) (hx : Ensures w P' x Q L) :
    Ensures w P x Q L :=
  of_ended fun _ hs => hx.ended (hP _ _ hs)

theorem ite {c : Prop} [Decidable c] (hx : c → Ensures w P x Q L) (hy : ¬c → Ensures w P y Q L) :
    Ensures w P (if c then x else y) Q L := by
  split
  · exact hx ‹_›
  · exact hy ‹_›

theorem attempt (hx : Ensures w P x Q L) :
    Ensures w P (attempt x) (fun o s r => match o with | .ok a => Q a s r | .error _ => L s r) L := by
  refine of_ended fun s hs => ?_
  have hbody := hx.ended hs
  rw [runOn_attempt]
  generalize x.runOn w s = o at hbody ⊢
  obtain ⟨(_ | _ | f) | a, t⟩ := o <;> exact hbody

theorem within (region) (hx : Ensures w P x Q L) (hP : ∀ s r, P s r → L s r)
    (hQ : ∀ a s r, Q a s r → L s r) : Ensures w P (within region x) Q L := by
  refine .after hP fun _ => .bind hx.attempt fun o => ?_
  cases o with
  | ok a => exact .bind (.of_unmoved (hQ a)) fun _ => .pure fun _ _ h => h
  | error f => exact .after (fun _ _ h => h) fun _ => .throw fun _ _ h => h

theorem runAgain (h : ∀ s r, P s r → L s r) : Ensures w P (runAgain : Page α) Q L :=
  .after h fun _ => .throw h

theorem stopRun (h : ∀ s r, P s r → L s r) : Ensures w P (stopRun : Page α) Q L :=
  .after h fun _ => .throw h

/-- What follows a stop is never reached. -/
theorem stopRun_bind (h : ∀ s r, P s r → L s r) : Ensures w P (Web.stopRun >>= f) K L := by
  exact .bind (Q := fun _ _ _ => False) (.stopRun h) fun _ => of_ended fun _ hs => hs.elim

theorem inSpinner (label) (hx : Ensures w P x Q L) (hP : ∀ s r, P s r → L s r)
    (hQ : ∀ a s r, Q a s r → L s r) : Ensures w P (inSpinner label x) Q L :=
  .after hP fun _ => .within _ hx hP hQ

end Page.Ensures

end MappingFlow.Web
