/-
  MappingFlow.Proofs.Conversion.Respelling — every identifier of an expression in its casing.

  Whatever a converter was asked to do, and wherever it stopped, its casings are entered
  under their own names (`learned_history`). With such casings the passes over an
  expression, one for each identifier found, come to a change of each word by itself
  (`toList_recased`): of the words of an expression the ASCII identifiers are found
  (`mem_findAll`), and a casing is not respelled again. A casing is the word in
  other letters of the same lower case, so the expression as a whole has the lower case it
  had (`lower_mapRuns`).
-/

import MappingFlow.Proofs.Conversion.Spelling

namespace MappingFlow

open List

/-! ## Lower case of like texts -/

namespace Text

/-- All that lower case asks of a character: its own lower case, unless that depends on the letters around it, and what it
    is to the letters around it. -/
def lowerShape (c : Char) : Option (List Char) × Bool × Bool :=
  (if c = 'Σ' then none else some (if c = 'İ' then ['i', '̇'] else [lowerChar c]), isPassedOver c, isCased c)

theorem lowerFrom_cons (b) (c : Char) (t) : lowerFrom b (c :: t) =
    (lowerShape c).1.getD [if caseFollows b && !caseFollows t then 'ς' else 'σ'] ++ lowerFrom (c :: b) t := by
  by_cases hc : c = 'Σ'
  · simp [lowerFrom, lowerShape, hc]
  · by_cases hdot : c = 'İ' <;> simp [lowerFrom, lowerShape, hc, hdot]

theorem caseFollows_cons (c : Char) (t) :
    caseFollows (c :: t) = if (lowerShape c).2.1 then caseFollows t else (lowerShape c).2.2 := by
  cases h : isPassedOver c <;> simp [caseFollows, lowerShape, h]

theorem caseFollows_congr (h : x.map lowerShape = y.map lowerShape) : caseFollows x = caseFollows y := by
  induction x generalizing y with
  | nil => rw [map_eq_nil_iff.mp h.symm]
  | cons c x ih =>
    obtain ⟨d, y, rfl, hd, hy⟩ := map_eq_cons_iff.mp h.symm
    rw [caseFollows_cons, caseFollows_cons, hd, ih hy.symm]

theorem lowerFrom_congr (hb : b.map lowerShape = b'.map lowerShape) (h : x.map lowerShape = y.map lowerShape) :
    lowerFrom b x = lowerFrom b' y := by
  induction x generalizing y b b' with
  | nil => rw [map_eq_nil_iff.mp h.symm]; rfl
  | cons c x ih =>
    obtain ⟨d, y, rfl, hd, hy⟩ := map_eq_cons_iff.mp h.symm
    have hrest := ih (show map lowerShape (c :: b) = map lowerShape (d :: b') by rw [map_cons, map_cons, hd, hb]) hy.symm
    rw [lowerFrom_cons, lowerFrom_cons, hd, caseFollows_congr hb, caseFollows_congr hy.symm, hrest]

/-- A letter whose lower case is plain is to the letters around it what its lower case is. -/
theorem lowerShape_lowerChar (hdot : c ≠ 'İ') (h : isPlainLetter (lowerChar c)) :
    lowerShape c = lowerShape (lowerChar c) := by
  have hascii : ∀ c : Char, c.toNat < 128 → lowerShape c = lowerShape (lowerChar c) := forall_ascii (by decide +kernel)
  have hpos : 0 < (lowerChar c).toNat := Nat.pos_of_ne_zero fun hzero => by
    rw [← Char.ofNat_toNat (lowerChar c), hzero] at h
    exact absurd h (by decide)
  rcases lowerChar_ascii (toNat_of_isPlainLetter h) hpos with hc | rfl | rfl
  · exact hascii c hc
  · decide +kernel
  · exact absurd rfl hdot

/-- A text whose lower case is plain is to the text around it what its lower case is. -/
theorem lowerShape_lowerFrom (h : ∀ d ∈ lowerFrom b t, isPlainLetter d) :
    t.map lowerShape = (lowerFrom b t).map lowerShape := by
  induction t generalizing b with
  | nil => rfl
  | cons c t ih =>
    have hrest := ih fun d hd => h d (by rw [lowerFrom_cons]; exact mem_append_right _ hd)
    by_cases hsigma : c = 'Σ'
    · subst hsigma
      rw [lowerFrom_cons] at h
      have hfirst := h _ (.head _)
      split at hfirst <;> exact absurd hfirst (by decide)
    · have hdot : c ≠ 'İ' := by
        rintro rfl
        exact absurd (h '̇' (by simp [lowerFrom])) (by decide)
      have hhere : lowerFrom b (c :: t) = lowerChar c :: lowerFrom (c :: b) t := by
        simp [lowerFrom_cons, lowerShape, hsigma, hdot]
      rw [hhere] at h ⊢
      rw [map_cons, map_cons, hrest, lowerShape_lowerChar hdot (h _ (.head _))]

theorem lower_mapRuns (h : ∀ w, (f w).map lowerShape = w.map lowerShape) (t) : lower (mapRuns p f t) = lower t := by
  refine lowerFrom_congr rfl ?_
  conv_rhs => rw [← flatten_runs (p := p) t, map_flatten]
  rw [mapRuns, map_flatMap, funext h, flatMap_def]

theorem exists_stands_of_mem_runs (h : w ∈ runs isWord t) (hw : IsRun isWord w) : ∃ b, Stands w t b := by
  induction t using runs_induction isWord with
  | nil => cases h
  | sign d t hd ih =>
    rw [runs_sign hd] at h
    rcases mem_cons.mp h with rfl | h
    · exact absurd (hw.all d mem_cons_self) (by simp [hd])
    · obtain ⟨b, hb⟩ := ih h
      obtain ⟨a, rfl, ha⟩ := hb.split
      refine ⟨b, hw.ne_nil, hw.all, hb.clear, d :: a, rfl, ?_⟩
      cases a with
      | nil => exact hd
      | cons c a => rwa [EndsClear, getLast?_cons_cons]
  | run v t hv ht ih =>
    rw [runs_run hv ht] at h
    rcases mem_cons.mp h with rfl | h
    · exact ⟨t, hw.ne_nil, hw.all, ht, [], rfl, rfl⟩
    · obtain ⟨b, hb⟩ := ih h
      obtain ⟨a, rfl, ha⟩ := hb.split
      refine ⟨b, hw.ne_nil, hw.all, hb.clear, v ++ a, by simp only [append_assoc], ?_⟩
      cases a with
      | nil => exact absurd (hw.head b) (by simpa using ht)
      | cons c a => rwa [EndsClear, getLast?_append_cons]

end Text

/-! ## The identifiers of an expression -/

namespace Conversion

open Pattern Text

variable {before t u v w : List Char}

theorem isRun_of_asciiName (h : isAsciiName w) : IsRun isWord w :=
  ⟨(isIdentifier_of_asciiName h).1, (isIdentifier_of_asciiName h).allWord⟩

/-- An identifier is found where it is a word of its own. -/
theorem reads_identifier (h : identifierPattern.Reads s r) : ∃ n, isAsciiName n ∧
    s.rest = n ++ r.rest ∧ StartsClear s.before ∧ StartsClear r.rest := by
  obtain ⟨s', ⟨hs, hstart⟩, _, ⟨c, rest, hrest, hc, rfl⟩, _, ⟨cs, rest', hcs, hrest', rfl⟩, rfl, hend⟩ := h
  subst s'
  have hname : isAsciiName (c :: cs) = true := by simpa [isAsciiName, hc] using hcs
  have hrun := isRun_of_asciiName hname
  simp only at hrest' hend
  refine ⟨c :: cs, hname, by rw [hrest, hrest']; rfl, startsClear_of_edge hstart hrest (hrun.all c mem_cons_self), ?_⟩
  have hlast := hrun.reverse.head s.before
  rw [reverse_cons, append_assoc, singleton_append] at hlast
  rw [atWordEdge, hlast] at hend
  simpa [StartsClear] using hend

/-- An identifier in front of a sign is found, if a match has not passed over it. -/
theorem atLeastOne_identifier (hname : isAsciiName w) (hbefore : StartsClear before) (ht : StartsClear t) :
    ∃ m, identifierPattern.atLeastOne? before (w ++ t) = some m ∧ m.matched = w := by
  have hrun := isRun_of_asciiName hname
  have hhead := hrun.head t
  have hlast := hrun.reverse.head before
  obtain ⟨c, cs, rfl⟩ := exists_cons_of_ne_nil hrun.ne_nil
  rw [reverse_cons, append_assoc, singleton_append] at hlast
  simp only [isAsciiName, Bool.and_eq_true, all_eq_true] at hname
  have hreads : identifierPattern.Reads ⟨before, c :: cs ++ t, []⟩ ⟨cs.reverse ++ c :: before, t, []⟩ := by
    rw [StartsClear] at hbefore ht
    refine ⟨_, ⟨rfl, ?_⟩, _, ⟨c, cs ++ t, rfl, hname.1, rfl⟩, _, ⟨cs, t, hname.2, rfl, rfl⟩, rfl, ?_⟩
    · simp only [atWordEdge, hbefore, hhead, Bool.false_bne]
    · simp only [atWordEdge, ht, hlast, Bool.bne_false]
  have hsome : (identifierPattern.atLeastOne? before (c :: cs ++ t)).isSome = true := by
    rw [atLeastOne?, Option.isSome_map]
    refine run_isSome hreads ?_
    rw [if_pos (by simp only [length_append, length_cons]; omega)]
    rfl
  obtain ⟨m, hm⟩ := Option.isSome_iff_exists.mp hsome
  refine ⟨m, hm, ?_⟩
  have hmatch := (atLeastOne_reads hm).1
  have hrest := hmatch.rest_eq
  obtain ⟨r, hr, rfl⟩ := hmatch
  obtain ⟨n, hn, hsplit, -, hend⟩ := reads_identifier hr
  rw [append_cancel_right (hrest.symm.trans hsplit)]
  exact (word_append_inj (isRun_of_asciiName hn).all hrun.all hend ht hsplit.symm).1

theorem mem_findAll (hname : isAsciiName w) (h : Stands w t v) : w ∈ identifierPattern.findAll t := by
  obtain ⟨a, rfl, ha⟩ := h.split
  suffices ∀ (a before : List Char) (skip : Nat), skip ≤ a.length → StartsClear (a.reverse ++ before) →
      w ∈ identifierPattern.findAllFrom before skip (a ++ (w ++ v)) by
    rw [append_assoc]
    refine this a [] 0 (Nat.zero_le _) ?_
    rwa [append_nil, StartsClear, head?_reverse]
  clear ha
  intro a
  induction a with
  | nil =>
    intro before skip hskip hclear
    obtain ⟨m, hm, rfl⟩ := atLeastOne_identifier hname hclear h.clear
    obtain ⟨c, cs, hcs⟩ := exists_cons_of_ne_nil h.ne_nil
    rw [Nat.le_zero.mp hskip, nil_append]
    rw [reverse_nil, nil_append, hcs, cons_append] at hm
    rw [hcs, cons_append, findAllFrom, hm, ← hcs]
    exact mem_cons_self
  | cons c a ih =>
    intro before skip hskip hclear
    have hlater := fun skip hskip => ih (c :: before) skip hskip (by simpa using hclear)
    cases skip with
    | succ n => exact hlater n (Nat.le_of_succ_le_succ hskip)
    | zero =>
      rw [cons_append, findAllFrom]
      cases hm : identifierPattern.atLeastOne? before (c :: (a ++ (w ++ v))) with
      | none => exact hlater 0 (Nat.zero_le _)
      | some m =>
        refine .tail _ (hlater _ ?_)
        have hmatch := (atLeastOne_reads hm).1
        have hrest := hmatch.rest_eq
        obtain ⟨r, hr, rfl⟩ := hmatch
        obtain ⟨n, hn, hsplit, -, -⟩ := reads_identifier hr
        rw [append_cancel_right (hrest.symm.trans hsplit)]
        -- A match that went on behind `a` would be a word that goes on.
        rcases append_eq_append_iff.mp (show c :: a ++ (w ++ v) = n ++ r.rest from hsplit) with ⟨x, rfl, -⟩ | ⟨x, hx, -⟩
        · have hword : IsRun isWord (c :: a) := ⟨cons_ne_nil c a, fun d hd => (isRun_of_asciiName hn).all d (mem_append_left x hd)⟩
          exact absurd (hword.reverse.head before) (by rw [hclear]; decide)
        · have := congrArg List.length hx
          simp only [length_cons, length_append] at this
          omega

/-! ## All passes -/

/-- An ASCII identifier in the casing that is known for it; anything else stays. -/
def respell (casing : List (String × String)) (w : List Char) : List Char :=
  if isAsciiName w then spelled casing w else w

theorem respell_sign (hd : isWord d = false) : respell casing [d] = [d] :=
  if_neg fun h => Bool.false_ne_true (hd.symm.trans ((isRun_of_asciiName h).all d mem_cons_self))

theorem toList_recased (h : Learned casing) (s) :
    (recased casing s).toList = mapRuns isWord (respell casing) s.toList := by
  have hwords : ∀ word ∈ identifierPattern.findAll s.toList, IsIdentifier word := fun _ => isIdentifier_of_findAll
  rw [recased, String.toList_ofList, eq_mapRuns (fun d hd => splitsAt_recasing hwords hd) (foldl_recase_nil hwords)]
  refine mapRuns_congr fun w hw => ?_
  rcases mem_runs hw with hrun | ⟨d, hd, rfl⟩
  · rw [h.foldl_recase hwords hrun, respell]
    obtain ⟨b, hb⟩ := exists_stands_of_mem_runs hw hrun
    simp only [show w ∈ identifierPattern.findAll s.toList ↔ isAsciiName w = true from
      ⟨isAsciiName_of_findAll, fun hname => mem_findAll hname hb⟩]
  · have hsplit := @splitsAt_recasing _ casing _ hwords hd [] []
    simp only [nil_append, foldl_recase_nil hwords] at hsplit
    exact hsplit.trans (respell_sign hd).symm

theorem keepsRuns_respell (h : Learned casing) : KeepsRuns isWord (respell casing) where
  sign _ hd := respell_sign hd
  run w hw := by
    unfold respell
    split
    · rename_i hname
      exact h.isRun_spelled (isIdentifier_of_asciiName hname)
    · exact hw

theorem lower_spelled (h : Learned casing) (w) : lower (spelled casing w) = lower w := by
  unfold spelled
  cases hk : casing.lookup (String.ofList (lower w)) with
  | none => rfl
  | some known => simpa [lowerName] using congrArg String.toList (h.lookup hk).symm

theorem lowerShape_respell (h : Learned casing) (w) : (respell casing w).map lowerShape = w.map lowerShape := by
  unfold respell
  split
  · rename_i hname
    have hplain : ∀ d ∈ lower w, isPlainLetter d = true :=
      isPlainLetter_lowerFrom fun c hc => isPlainLetter_of_identifier ((isIdentifier_of_asciiName hname).2 c hc)
    rw [lowerShape_lowerFrom (b := []) hplain, ← lower, ← lower_spelled h]
    exact lowerShape_lowerFrom (by rwa [← lower, lower_spelled h])
  · rfl

theorem respell_respell (h : Learned casing) (w) : respell casing (respell casing w) = respell casing w := by
  unfold respell
  by_cases hname : isAsciiName w = true
  · rw [if_pos hname, h.spelled_spelled, ite_self]
  · rw [if_neg hname, if_neg hname]

/-! ## Whatever was done before -/

variable {α β : Type} {P : State → Prop}

/-- The program keeps the property, also where it stops with a fault. -/
def Guards (P : State → Prop) (x : Converting α) : Prop := ∀ s, P s → P (outcome x s).2

theorem Guards.bind (hx : Guards P x) (hk : ∀ a, Guards P (k a)) : Guards P (x >>= k) := by
  intro s hs
  have hleft := hx s hs
  rw [outcome_bind]
  generalize outcome x s = o at hleft ⊢
  obtain ⟨e | a, t⟩ := o
  · exact hleft
  · exact hk a t hleft

theorem Composed.guards (h : Composed True x) (hP : StableLearning P) : Guards P x := by
  induction h with
  | pure | lift | throw => exact fun _ hs => hs
  | remark hw => exact fun s hs => hP.remark s _ hw hs
  | error e => exact fun s hs => hP.error s e hs
  | learn name _ => exact fun s hs => hP.learn s name hs
  | bind _ _ hx hk => exact hx.bind hk
  | ask _ _ hk => exact fun s hs => hk s s hs

theorem stableLearning_learned : StableLearning fun s => Learned s.casing where
  remark _ _ _ hs := hs
  error _ _ hs := hs
  learn _ name hs := hs.learn name

theorem guards_convertTransformation (r : Rules) (t) :
    Guards (fun s => Learned s.casing) (convertTransformation r t) := by
  refine .bind (fun _ hs => hs) fun type => ?_
  split
  · exact (composed_convertStep.guards stableLearning_learned).bind fun _ _ hs => hs
  · exact fun _ hs => hs

theorem guards_convertTransformations (r : Rules) (ts) :
    Guards (fun s => Learned s.casing) (convertTransformations r ts) := by
  induction ts with
  | nil => exact fun _ hs => hs
  | cons t ts ih => exact (guards_convertTransformation r t).bind fun _ => ih.bind fun _ _ hs => hs

theorem learned_after (r : Rules) (op : Operation) (h : Learned s.casing) : Learned (op.after r s).casing := by
  have hnone : Learned [] := fun _ hp => absurd hp not_mem_nil
  have endpoint (kind : String) (e : Endpoint) : Composed True (convertEndpoint r kind e) :=
    .bind (.lift _) fun _ => .pure _
  cases op with
  | mapping m =>
    rw [Operation.after, outcome_convertMapping]
    have hbegun : Learned (begun m s).casing := learned_noteColumns _ hnone
    refine Guards.bind (P := fun s => Learned s.casing) ?_ (fun _ => ?_) _ hbegun
    · exact (composed_convertEndpoints _ _).guards stableLearning_learned
    · refine (guards_convertTransformations r _).bind fun _ => ?_
      exact ((composed_convertEndpoints _ _).guards stableLearning_learned).bind fun _ _ hs => hs
  | transformation t => exact guards_convertTransformation r t s h
  | source e => exact (endpoint "Source" e).guards stableLearning_learned s h
  | target e => exact (endpoint "Sink" e).guards stableLearning_learned s h
  | expression | feeds => exact h
  | casing sources => exact learned_noteColumns _ hnone

theorem learned_history (r : Rules) (ops) : Learned (history r ops).casing := by
  suffices ∀ s : State, Learned s.casing → Learned (ops.foldl (Operation.after r) s).casing from
    this .start fun _ hp => absurd hp not_mem_nil
  induction ops with
  | nil => exact fun _ => id
  | cons op ops ih => exact fun s hs => ih _ (learned_after r op hs)

/-- Whatever a converter was asked to do before, its casings are entered under their own names, and normalizing an
    expression writes each word that is an ASCII identifier in the casing known for it and leaves all else. Once is
    enough, and in lower case the expression is what it was. -/
theorem normalize_respells (r : Rules) (ops : List Operation) (e : String) :
    (∀ p ∈ (history r ops).casing, p.1 = lowerName p.2) ∧
    ∃ e' : String, normalize (history r ops).casing (.text e) = .ok (.text e') ∧
      e'.toList = mapRuns isWord (respell (history r ops).casing) e.toList ∧
      normalize (history r ops).casing (.text e') = .ok (.text e') ∧ lowerName e' = lowerName e := by
  have hl := learned_history r ops
  refine ⟨hl, _, normalize_text hl e, toList_recased hl e, ?_, ?_⟩
  · rw [normalize_text hl]
    refine congrArg (Except.ok ∘ Value.text) (String.toList_injective ?_)
    rw [toList_recased hl, toList_recased hl, (keepsRuns_respell hl).mapRuns_mapRuns]
    exact mapRuns_congr fun w _ => respell_respell hl w
  · rw [lowerName, toList_recased hl, lower_mapRuns (lowerShape_respell hl)]
    rfl

end Conversion

end MappingFlow
