/-
  MappingFlow.Proofs.Dataflow.Disambiguation — columns called by another name keep an
  expression even.

  A match of a column is a word without signs, and so is what is written for it, so a reader
  that counts arrows and parentheses cannot tell the two apart (`isEven_substitute`). If the
  lookups before a step call names by names, what they make of a name is a name and what they
  make of an even expression is even (`exists_disambiguate`).
-/

import MappingFlow.Dataflow.Disambiguation
import MappingFlow.Proofs.Conversion.Casing
import MappingFlow.Proofs.Dataflow.Punctuation
import MappingFlow.Proofs.Pattern.Locality
import MappingFlow.Proofs.Running

namespace MappingFlow.Dataflow

open Pattern
open List hiding all

variable {steps : List Value} {step : Value}

/-! ## A reader that counts -/

structure Tally where
  /-- Parentheses opened less those closed. -/
  depth : Int
  count : Nat
  /-- A `~` came last. -/
  half : Bool

def tallying : Reader Tally where
  step s c :=
    ⟨s.depth + ((if c = '(' then 1 else 0) - (if c = ')' then 1 else 0)),
      s.count + (if s.half = true ∧ c = '>' then 1 else 0), c == '~'⟩

theorem depth_read (s : Tally) (t) : (tallying.read s t).depth = s.depth + ((t.count '(' : Int) - t.count ')') := by
  induction t generalizing s with
  | nil => simp
  | cons c t ih =>
    rw [Reader.read_cons, ih, count_cons, count_cons]
    simp only [tallying, beq_iff_eq]
    split <;> split <;> push_cast <;> omega

theorem count_read (s : Tally) (t) :
    (tallying.read s t).count = s.count + (if s.half = true ∧ t.head? = some '>' then 1 else 0) + arrows t := by
  induction t generalizing s with
  | nil => simp [arrows]
  | cons c t ih =>
    rw [Reader.read_cons, ih, arrows]
    simp only [tallying, beq_iff_eq, head?_cons, Option.some.injEq]
    omega

theorem isEven_iff :
    IsEven e ↔ (tallying.read ⟨0, 0, false⟩ e.toList).depth = 0 ∧ (tallying.read ⟨0, 0, false⟩ e.toList).count = 0 := by
  rw [depth_read, count_read, IsEven]
  simp
  omega

/-- The characters that are counted. -/
def counted : List Char := "()~>".toList

theorem read_uncounted (hne : t ≠ []) (h : ∀ c ∈ counted, c ∉ t) (s : Tally) :
    tallying.read s t = ⟨s.depth, s.count, false⟩ := by
  have hstep : ∀ c ∈ t, ∀ s, tallying.step s c = ⟨s.depth, s.count, false⟩ := by
    intro c hc s
    have hsign : ∀ d ∈ counted, c ≠ d := fun d hd hcd => h d hd (hcd ▸ hc)
    simp [tallying, hsign '(' (by decide), hsign ')' (by decide), hsign '~' (by decide), hsign '>' (by decide)]
  clear h
  induction t generalizing s with
  | nil => exact absurd rfl hne
  | cons c t ih =>
    rw [Reader.read_cons, hstep c mem_cons_self]
    cases t with
    | nil => rfl
    | cons d t => exact ih (cons_ne_nil d t) _ fun e he => hstep e (.tail _ he)

theorem isEven_substitute {p : Pattern} (hp : ∀ c ∈ counted, p.rejects c) (hl : 0 < p.minLength)
    (hne : v ≠ []) (hv : ∀ c ∈ counted, c ∉ v) (h : IsEven (String.ofList t)) :
    IsEven (String.ofList (p.substitute (Template.plain v) t)) := by
  have hsim : tallying.Sim Eq t (p.replaceAll (fun _ => v) t) := by
    refine sim_replaceAll Reader.respects_eq (fun before rest m hm => ?_) t
    have hmatched : m.matched ≠ [] := ne_nil_of_length_pos (Nat.lt_of_lt_of_le hl hm.minLength_le)
    rintro s _ rfl
    rw [read_uncounted hne hv, read_uncounted hmatched fun c hc => hm.not_mem (hp c hc)]
  rw [isEven_iff, String.toList_ofList] at h ⊢
  rw [substitute_plain, hsim _ _ rfl]
  exact h

/-! ## One column -/

variable {name q s : String} {P : String → Prop}

theorem rejects_columnPattern {d : Char} (h : d ∉ name.toList) : (columnPattern name).rejects d = true := by
  have hliteral : (literal name.toList).rejects d = true := by
    refine rejects_of_isLocal (isLocal_all fun p hp => ?_)
    obtain ⟨c, hc, rfl⟩ := mem_map.mp hp
    have hne : d ≠ c := fun hdc => h (hdc ▸ hc)
    simp [char, isLocal, hne]
  simp [columnPattern, all, rejects, hliteral]

theorem minLength_columnPattern (h : name ≠ "") : 0 < (columnPattern name).minLength := by
  obtain ⟨c, t, hname⟩ := exists_cons_of_ne_nil (l := name.toList) (by simpa using h)
  have hliteral : 0 < (literal name.toList).minLength := by
    rw [hname]
    exact minLength_all (Nat.succ_pos 0)
  simp only [columnPattern, all, minLength]
  omega

/-- What holds of a text still holds after a column is called by another name. -/
def Kept (P : String → Prop) : Prop := ∀ name q s : String, IsName name → IsName q → P s →
  P (String.ofList ((columnPattern name).substitute (Template.plain q.toList) s.toList))

theorem isSign_of_counted {c : Char} (h : c ∈ counted) : isSign c = true := by
  revert c
  decide

theorem kept_isEven : Kept IsEven := by
  intro name q s hname hq hs
  refine isEven_substitute (fun c hc => ?_) (minLength_columnPattern hname.1) (by simpa using hq.1) (fun c hc => ?_) ?_
  · exact rejects_columnPattern (hname.2.not_mem (isSign_of_counted hc))
  · exact hq.2.not_mem (isSign_of_counted hc)
  · rwa [String.ofList_toList]

theorem kept_isName : Kept IsName := by
  intro name q s _ hq hs
  rw [substitute_plain]
  have hne : (columnPattern name).replaceAll (fun _ => q.toList) s.toList ≠ [] :=
    replaceAll_ne_nil (fun _ => by simpa using hq.1) (by simpa using hs.1)
  refine ⟨by simpa using hne, fun c hc => ?_⟩
  rw [String.toList_ofList] at hc
  by_contra hsign
  rw [Bool.not_eq_false] at hsign
  exact not_mem_replaceAll (fun _ => hq.2.not_mem hsign) (hs.2.not_mem hsign) hc

/-- A name that is called by a name. -/
def IsRenaming (f : String × Value) : Prop := IsName f.1 ∧ ∃ q, f.2 = .text q ∧ IsName q

theorem exists_qualifyColumn (hP : Kept P) (hf : IsRenaming f) (hs : P s) :
    ∃ s', qualifyColumn (.text s) f = .ok (.text s') ∧ P s' := by
  obtain ⟨hname, q, hq, hqname⟩ := hf
  have hread : Template.read 0 q.toList = .ok (Template.plain q.toList) :=
    Template.read_plain (hqname.2.not_mem (by decide))
  simp only [qualifyColumn, hq, hread]
  split
  · exact ⟨_, rfl, hP _ _ _ hname hqname hs⟩
  · exact ⟨s, rfl, hs⟩

theorem exists_foldlM_qualifyColumn (hP : Kept P) {fs : Fields} (hfs : ∀ f ∈ fs, IsRenaming f) (hs : P s) :
    ∃ s', fs.foldlM qualifyColumn (.text s) = .ok (.text s') ∧ P s' := by
  induction fs generalizing s with
  | nil => exact ⟨s, rfl, hs⟩
  | cons f fs ih =>
    obtain ⟨s', hfirst, hs'⟩ := exists_qualifyColumn hP (hfs f mem_cons_self) hs
    obtain ⟨s'', hrest, hs''⟩ := ih (fun g hg => hfs g (.tail _ hg)) hs'
    exact ⟨s'', by rw [foldlM_cons]; exact bind_eq_ok.mpr ⟨_, hfirst, hrest⟩, hs''⟩

/-! ## The lookups before a step -/

section Members

variable {Q : String × Value → Prop} {fs gs : Fields}

theorem forall_insert (hfs : ∀ f ∈ fs, Q f) (hf : Q f) : ∀ g ∈ fs.insert f.1 f.2, Q g := by
  induction fs with
  | nil => exact forall_mem_singleton.mpr hf
  | cons h fs ih =>
    obtain ⟨hh, hfs⟩ := forall_mem_cons.mp hfs
    rw [Fields.insert]
    split
    · exact forall_mem_cons.mpr ⟨hf, hfs⟩
    · exact forall_mem_cons.mpr ⟨hh, ih hfs⟩

theorem forall_update (hfs : ∀ f ∈ fs, Q f) (hgs : ∀ g ∈ gs, Q g) : ∀ f ∈ fs.update gs, Q f :=
  List.foldlRecOn (motive := fun fs => ∀ f ∈ fs, Q f) gs _ hfs fun _ hacc g hg => forall_insert hacc (hgs g hg)

theorem perm_insertByLength (f fs) : (insertByLength f fs).Perm (f :: fs) := by
  induction fs with
  | nil => exact .refl _
  | cons g fs ih =>
    rw [insertByLength]
    split
    · exact .refl _
    · exact (ih.cons g).trans (.swap f g fs)

theorem perm_longestFirst (fs) : (longestFirst fs).Perm fs := by
  have hfold (sorted : Fields) : (fs.foldl (fun sorted f => insertByLength f sorted) sorted).Perm (fs ++ sorted) := by
    induction fs generalizing sorted with
    | nil => exact .refl _
    | cons f fs ih => exact ((ih _).trans ((perm_insertByLength f sorted).append_left fs)).trans perm_middle
  exact (hfold []).trans (.of_eq (append_nil fs))

theorem forall_longestFirst (hfs : ∀ f ∈ fs, Q f) : ∀ f ∈ longestFirst fs, Q f := fun f hf =>
  hfs f ((perm_longestFirst fs).mem_iff.mp hf)

end Members

/-- What a step calls columns, if it is a lookup. -/
def renamesOf (step : Value) : Fields :=
  if (step.member "type").isText "Lookup" then step.memberFields "columnDisambiguation" else []

/-- A step that, if it is a lookup, has a name and says what it calls columns by an object. -/
def IsReadable (step : Value) : Prop :=
  ∃ fs : Fields, step = .object fs ∧ ((fs.getD "type" .null).isText "Lookup" = true →
    (∃ name, fs.get? "name" = some name) ∧ ∃ gs, fs.getD "columnDisambiguation" (.object []) = .object gs)

theorem renamesOf_lookup {fs gs : Fields} (hl : (fs.getD "type" .null).isText "Lookup")
    (h : fs.getD "columnDisambiguation" (.object []) = .object gs) : renamesOf (.object fs) = gs := by
  have hmember : (Value.object fs).member "columnDisambiguation" = (fs.get? "columnDisambiguation").getD .null := rfl
  refine (if_pos hl).trans ?_
  rw [Value.memberFields, hmember]
  rw [Fields.getD] at h
  cases hget : fs.get? "columnDisambiguation" with
  | none =>
    rw [hget] at h
    exact Value.object.inj h
  | some v =>
    rw [hget, Option.getD_some] at h
    rw [h]
    rfl

theorem renamesOf_other {fs : Fields} (hl : ¬ (fs.getD "type" .null).isText "Lookup" = true) :
    renamesOf (.object fs) = [] := if_neg hl

/-- The entries of all lookups, one after the other. -/
theorem qualifications_eq (h : ∀ step ∈ steps, IsReadable step) (known) :
    qualifications known steps = .ok (known.update (steps.flatMap renamesOf)) := by
  induction steps generalizing known with
  | nil => rfl
  | cons step steps ih =>
    obtain ⟨⟨fs, rfl, hlookup⟩, hsteps⟩ := forall_mem_cons.mp h
    have hupdate : known.update ((Value.object fs :: steps).flatMap renamesOf) =
        (known.update (renamesOf (.object fs))).update (steps.flatMap renamesOf) := by
      rw [flatMap_cons]
      exact foldl_append
    refine bind_eq_ok.mpr ⟨fs.getD "type" .null, rfl, ?_⟩
    rw [hupdate]
    by_cases hl : (fs.getD "type" .null).isText "Lookup" = true
    · obtain ⟨⟨name, hname⟩, gs, hgs⟩ := hlookup hl
      have hfield : (Value.object fs).field "name" = .ok name := by simp [Value.field, hname]
      have hfieldD : (Value.object fs).fieldD "columnDisambiguation" (.object []) = .ok (.object gs) := congrArg _ hgs
      rw [if_pos hl, renamesOf_lookup hl hgs]
      exact bind_eq_ok.mpr ⟨_, hfieldD, bind_eq_ok.mpr ⟨gs, rfl, bind_eq_ok.mpr ⟨_, hfield, ih hsteps _⟩⟩⟩
    · rw [if_neg hl, renamesOf_other hl]
      exact ih hsteps known

/-- A step that, if it is a lookup, has a name and calls names by names. -/
def RenamesNames (step : Value) : Prop :=
  ∃ fs : Fields, step = .object fs ∧ ((fs.getD "type" .null).isText "Lookup" = true →
    (∃ name, fs.get? "name" = some name) ∧
      ∃ gs, fs.getD "columnDisambiguation" (.object []) = .object gs ∧ ∀ g ∈ gs, IsRenaming g)

theorem RenamesNames.isReadable (h : RenamesNames step) : IsReadable step := by
  obtain ⟨fs, hfs, hlookup⟩ := h
  refine ⟨fs, hfs, fun hl => ?_⟩
  obtain ⟨hname, gs, hgs, -⟩ := hlookup hl
  exact ⟨hname, gs, hgs⟩

theorem RenamesNames.isRenaming (h : RenamesNames step) : ∀ f ∈ renamesOf step, IsRenaming f := by
  obtain ⟨fs, rfl, hlookup⟩ := h
  by_cases hl : (fs.getD "type" .null).isText "Lookup" = true
  · obtain ⟨-, gs, hgs, hrenamings⟩ := hlookup hl
    rwa [renamesOf_lookup hl hgs]
  · rw [renamesOf_other hl]
    exact forall_mem_nil _

theorem exists_qualifications (h : ∀ step ∈ steps, RenamesNames step) :
    ∃ fs, qualifications [] steps = .ok fs ∧ ∀ f ∈ fs, IsRenaming f := by
  refine ⟨_, qualifications_eq (fun step hstep => (h step hstep).isReadable) [], ?_⟩
  refine forall_update (forall_mem_nil _) fun f hf => ?_
  obtain ⟨step, hstep, hf⟩ := mem_flatMap.mp hf
  exact (h step hstep).isRenaming f hf

theorem exists_disambiguate (hP : Kept P) {earlier : List Value} (h : ∀ step ∈ earlier, RenamesNames step) (hs : P s) :
    ∃ s', disambiguate earlier (.text s) = .ok (.text s') ∧ P s' := by
  obtain ⟨fs, hfs, hrenamings⟩ := exists_qualifications h
  obtain ⟨s', hs', hresult⟩ := exists_foldlM_qualifyColumn hP (forall_longestFirst hrenamings) hs
  exact ⟨s', bind_eq_ok.mpr ⟨fs, hfs, hs'⟩, hresult⟩

end MappingFlow.Dataflow
