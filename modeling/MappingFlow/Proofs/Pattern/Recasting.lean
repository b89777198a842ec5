/-
  MappingFlow.Proofs.Pattern.Recasting — replacements that keep the groups of a match in
  their places.

  `Recasts r R R' p t slots`: what `p` reads and what the template `t` writes for it lead
  the reader `r` from states in `R` to states in `R'`, and the groups captured are `slots`,
  latest first. A template that goes along with its pattern is read off piece by piece
  (`recasts_of_finds`, `recasts_group`, `recasts_append`), and a reader follows the whole
  replacement if the pieces lead back to where it was (`sim_substitute`).
-/

import MappingFlow.Proofs.Pattern.Locality

namespace MappingFlow.Pattern

open Reader
open List

variable {σ : Type} {R R₁ R₂ : σ → σ → Prop} {p q : Pattern}

theorem reads_all_append {s t : Scan} (h : (all (l ++ k)).Reads s t) : ∃ u, (all l).Reads s u ∧ (all k).Reads u t := by
  induction l generalizing s with
  | nil => exact ⟨s, rfl, h⟩
  | cons p l ih =>
    obtain ⟨u, hu, h⟩ := reads_all_cons h
    obtain ⟨v, hv, h⟩ := ih h
    refine ⟨v, ?_, h⟩
    cases l with
    | nil => rw [show v = u from hv]; exact hu
    | cons q l => exact ⟨u, hu, hv⟩

/-! ## What patterns read -/

/-- The pattern captures nothing, and whatever it reads is a text with `Q`. -/
def Finds (p : Pattern) (Q : List Char → Prop) : Prop :=
  p.isGroupless = true ∧ ∀ s s' u, p.Reads s s' → s.rest = u ++ s'.rest → Q u

section Finds

variable {Q Q' S : List Char → Prop}

theorem finds_nil (hQ : Q []) : Finds (all []) Q := by
  refine ⟨rfl, fun s s' u hr hu => ?_⟩
  obtain rfl : s' = s := hr
  rwa [append_cancel_right (nil_append _ |>.trans hu).symm]

theorem isGroupless_append : (all (l ++ k)).isGroupless = ((all l).isGroupless && (all k).isGroupless) := by
  induction l with
  | nil => rfl
  | cons p l ih =>
    cases l with
    | nil =>
      cases k with
      | nil => simp [all, isGroupless]
      | cons q k => rfl
    | cons p' l =>
      change (p.isGroupless && (all (p' :: l ++ k)).isGroupless) = _
      rw [ih, ← Bool.and_assoc]
      rfl

theorem finds_append (hp : Finds (all l) Q) (hq : Finds (all k) Q') (h : ∀ x y, Q x → Q' y → S (x ++ y)) :
    Finds (all (l ++ k)) S := by
  refine ⟨by rw [isGroupless_append, hp.1, hq.1]; rfl, fun s s' u hr hu => ?_⟩
  obtain ⟨v, hps, hqs⟩ := reads_all_append hr
  obtain ⟨x, hx⟩ := reads_rest hps
  obtain ⟨y, hy⟩ := reads_rest hqs
  rw [hx, hy, ← append_assoc] at hu
  rw [← append_cancel_right hu]
  exact h x y (hp.2 _ _ _ hps hx) (hq.2 _ _ _ hqs hy)

theorem Finds.mono (h : Finds p Q) (hQ : ∀ u, Q u → Q' u) : Finds p Q' :=
  ⟨h.1, fun s s' u hr hu => hQ u (h.2 s s' u hr hu)⟩

theorem finds_one (accepts) : Finds (one accepts) fun u => ∃ c, accepts c = true ∧ u = [c] := by
  refine ⟨rfl, ?_⟩
  rintro s s' u ⟨c, rest, hrest, hc, rfl⟩ hu
  exact ⟨c, hc, append_cancel_right (hu.symm.trans hrest)⟩

theorem finds_char (c : Char) : Finds (all [char c]) (· = [c]) := by
  refine (finds_one _).mono ?_
  rintro _ ⟨d, hd, rfl⟩
  rw [beq_iff_eq.mp hd]

theorem finds_alt (hp : Finds p Q) (hq : Finds q Q) : Finds (alt p q) Q := by
  refine ⟨by rw [isGroupless, hp.1, hq.1]; rfl, fun s s' u hr hu => ?_⟩
  rcases hr with hr | hr
  · exact hp.2 s s' u hr hu
  · exact hq.2 s s' u hr hu

theorem Finds.found {t : List Char} (h : Finds p Q) (hm : p.find? t = some m) : Q m.matched := by
  obtain ⟨-, u, hu, hmatch⟩ := find_reads hm
  exact h.2 _ _ _ hu (congrArg (m.matched ++ ·) (congrArg Match.after hmatch))

end Finds

/-! ## What is written for it -/

def Recasts (r : Reader σ) (R R' : σ → σ → Prop) (p : Pattern) (t : Template) (slots : List Nat) : Prop :=
  ∀ s s', p.Reads s s' → ∃ read new, s.rest = read ++ s'.rest ∧ s'.groups = new ++ s.groups ∧
    new.map (·.1) = slots ∧ ∀ m : Match, (∀ g ∈ new, m.group g.1 = g.2.text) → r.Leads R R' read (t.expand m)

theorem recasts_of_finds {Q : List Char → Prop} (hp : Finds p Q) (h : ∀ u, Q u → r.Leads R R₁ u v) :
    p.Recasts r R R₁ (.plain v) [] := by
  intro s s' hr
  obtain ⟨read, hread⟩ := reads_rest hr
  refine ⟨read, [], hread, reads_groups hp.1 hr, rfl, fun m _ => ?_⟩
  rw [Template.expand_plain]
  exact h read (hp.2 s s' read hr hread)

theorem recasts_stay (h : ∀ s s', p.Reads s s' → s' = s) : p.Recasts r R R [] [] := by
  intro s s' hr
  rw [h s s' hr]
  exact ⟨[], [], rfl, rfl, rfl, fun _ _ _ _ hab => hab⟩

theorem recasts_group (hR : ∀ g, r.Leads R R g g) (hg : p.isGroupless) : (group i p).Recasts r R R [.group i] [i] := by
  rintro s s' ⟨u, hu, rfl⟩
  obtain ⟨read, hread⟩ := reads_rest hu
  refine ⟨read, [(i, ⟨s.rest, u.rest⟩)], hread, by simp [reads_groups hg hu], rfl, fun m hm => ?_⟩
  have htext := hm _ (mem_singleton_self _)
  simp only [hread, Span.text_append] at htext
  rw [Template.expand_group, htext, Template.expand_nil, append_nil]
  exact hR read

theorem recasts_append (hp : (all l).Recasts r R R₁ t is) (hq : (all k).Recasts r R₁ R₂ t' js) :
    (all (l ++ k)).Recasts r R R₂ (t ++ t') (js ++ is) := by
  intro s s' hr
  obtain ⟨u, hps, hqs⟩ := reads_all_append hr
  obtain ⟨read, new, hread, hgroups, hslots, hleads⟩ := hp s u hps
  obtain ⟨read', new', hread', hgroups', hslots', hleads'⟩ := hq u s' hqs
  refine ⟨read ++ read', new' ++ new, ?_, ?_, ?_, fun m hm => ?_⟩
  · rw [hread, hread', append_assoc]
  · rw [hgroups', hgroups, append_assoc]
  · rw [map_append, hslots, hslots']
  · rw [Template.expand_append]
    exact (hleads m fun g hg => hm g (mem_append_right _ hg)).append
      (hleads' m fun g hg => hm g (mem_append_left _ hg))

theorem lookup_of_distinct {groups : List (Nat × Span)} (hd : (groups.map (·.1)).Nodup)
    (hg : g ∈ groups) : groups.lookup g.1 = some g.2 := by
  induction groups with
  | nil => cases hg
  | cons f groups ih =>
    rw [map_cons, nodup_cons] at hd
    rcases mem_cons.mp hg with rfl | hg
    · rw [lookup_cons, beq_self_eq_true]
    · have hne : g.1 ≠ f.1 := fun h => hd.1 (h ▸ mem_map_of_mem hg)
      rw [lookup_cons, beq_eq_false_iff_ne.mpr hne]
      exact ih hd.2 hg

theorem Recasts.matches {m : Match} (hp : p.Recasts r R R₁ t is) (hd : is.Nodup ∧ 0 ∉ is)
    (hm : p.Matches before rest m) : r.Leads R R₁ m.matched (t.expand m) := by
  obtain ⟨s, hs, rfl⟩ := hm
  obtain ⟨read, new, hread, hgroups, hslots, hleads⟩ := hp _ _ hs
  simp only [append_nil] at hread hgroups
  subst hread hslots
  have hmatched : (toMatch before (read ++ s.rest) s).matched = read := Span.text_append read s.rest
  rw [hmatched]
  refine hleads _ fun g hg => ?_
  have hne : g.1 ≠ 0 := fun h => hd.2 (h ▸ mem_map_of_mem hg)
  simp [Match.group, hne, toMatch, hgroups, lookup_of_distinct hd.1 hg]

theorem sim_substitute (hR : r.Respects R) (hp : p.Recasts r R R t is) (hd : is.Nodup ∧ 0 ∉ is) (source) :
    r.Sim R source (p.substitute t source) :=
  sim_replaceAll hR (fun _ _ _ hm => hp.matches hd hm) source

end MappingFlow.Pattern
