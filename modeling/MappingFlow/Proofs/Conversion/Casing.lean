/-
  MappingFlow.Proofs.Conversion.Casing — what the casings that a conversion has learned do
  to an expression.

  Every casing is entered under its own name in lower case (`Learned`), so the casing found
  for a word of an expression is a word itself: in lower case the two are the same, and
  lower case changes no sign. Such a casing is written as it is (`read_plain`), and a
  conversion never fails over one (`normalizeText_ok`).
-/

import MappingFlow.Conversion.Casing
import MappingFlow.Proofs.Pattern.Reads
import MappingFlow.Proofs.Text.Letters

namespace MappingFlow

variable {groups position : Nat}

/-! ## Templates without references -/

namespace TemplatePiece

theorem take_plain (h : c ≠ '\\') : take groups position (c :: rest) = .ok (text c, 1) := by
  unfold take
  split <;> simp_all

theorem readFrom_plain (h : '\\' ∉ t) : readFrom groups position 0 t = .ok (Template.plain t) := by
  induction t generalizing position with
  | nil => rfl
  | cons c t ih =>
    rw [List.mem_cons, not_or] at h
    rw [readFrom, take_plain (Ne.symm h.1)]
    change (readFrom groups (position + 1) 0 t >>= fun pieces => pure (text c :: pieces)) = _
    rw [ih h.2]
    rfl

end TemplatePiece

theorem Template.read_plain (h : '\\' ∉ t) : Template.read groups t = .ok (plain t) :=
  TemplatePiece.readFrom_plain h

/-! ## Identifiers of an expression -/

namespace Pattern

theorem findAllFrom_matches {p : Pattern} :
    ∀ w ∈ p.findAllFrom before skip t, ∃ before rest m, p.Matches before rest m ∧ m.matched = w := by
  induction t generalizing before skip with
  | nil => exact fun _ hw => absurd hw (List.not_mem_nil)
  | cons c t ih =>
    intro w hw
    cases skip with
    | succ n => exact ih w hw
    | zero =>
      simp only [findAllFrom] at hw
      split at hw
      · rename_i m hm
        rcases List.mem_cons.mp hw with rfl | hw
        · exact ⟨_, _, m, (atLeastOne_reads hm).1, rfl⟩
        · exact ih w hw
      · exact ih w hw

end Pattern

namespace Conversion

open Pattern Text String
open List

variable {word t : List Char} {name known : String}

theorem isPlainLetter_of_identifier (h : isIdentifierPart c) : isPlainLetter c = true := by
  have hascii : ∀ c : Char, c.toNat < 128 → isIdentifierPart c = true → isPlainLetter c = true :=
    forall_ascii (by decide)
  have hc : c.toNat < 128 := by
    delta isIdentifierPart Char.isAlphanum Char.isAlpha Char.isUpper Char.isLower Char.isDigit at h
    simp only [Bool.or_eq_true, Bool.and_eq_true, decide_eq_true_eq, beq_iff_eq, ge_iff_le, UInt32.le_iff_toNat_le] at h
    rcases h with ((h | h) | h) | rfl
    · exact Nat.lt_of_le_of_lt h.2 (by decide)
    · exact Nat.lt_of_le_of_lt h.2 (by decide)
    · exact Nat.lt_of_le_of_lt h.2 (by decide)
    · decide
  exact hascii c hc h

/-- A word of an expression that a casing may be known for. -/
def IsIdentifier (word : List Char) : Prop := word ≠ [] ∧ ∀ c ∈ word, isIdentifierPart c = true

/-- A letter of the alphabet or an underscore, and behind it digits too. -/
def isAsciiName : List Char → Bool
  | [] => false
  | c :: cs => isIdentifierStart c && cs.all isIdentifierPart

theorem isIdentifier_of_asciiName (h : isAsciiName word) : IsIdentifier word := by
  cases word with
  | nil => cases h
  | cons c cs =>
    simp only [isAsciiName, isIdentifierStart, Bool.and_eq_true, Bool.or_eq_true, all_eq_true] at h
    refine ⟨cons_ne_nil c cs, forall_mem_cons.mpr ⟨?_, h.2⟩⟩
    simp only [isIdentifierPart, Char.isAlphanum, Bool.or_eq_true]
    exact h.1.imp_left .inl

theorem isAsciiName_of_findAll (h : word ∈ identifierPattern.findAll t) : isAsciiName word = true := by
  obtain ⟨before, rest, m, ⟨u, hreads, rfl⟩, rfl⟩ := findAllFrom_matches word h
  obtain ⟨s₁, ⟨rfl, -⟩, s₂, ⟨c, rest₁, hrest, hc, rfl⟩, s₃, ⟨cs, rest₂, hcs, hrest₂, rfl⟩, rfl, -⟩ := hreads
  simp only at hrest hrest₂
  subst hrest hrest₂
  rw [toMatch, ← cons_append, Span.text_append]
  simpa [isAsciiName, hc] using hcs

theorem isIdentifier_of_findAll (h : word ∈ identifierPattern.findAll t) : IsIdentifier word :=
  isIdentifier_of_asciiName (isAsciiName_of_findAll h)

/-! ## Casings -/

/-- Every casing is entered under its own name. -/
def Learned (casing : List (String × String)) : Prop := ∀ p ∈ casing, p.1 = lowerName p.2

theorem Learned.learn (h : Learned casing) (name) : Learned (learnCasing name casing) := by
  unfold learnCasing
  split
  · exact h
  · intro p hp
    rcases mem_append.mp hp with hp | hp
    · exact h p hp
    · rw [mem_singleton.mp hp]

theorem learned_noteColumns (names : List String) (h : Learned s.casing) :
    Learned (names.foldl noteColumn s).casing := by
  induction names generalizing s with
  | nil => exact h
  | cons name names ih => exact ih (h.learn name)

theorem Learned.lookup (h : Learned casing) (hk : casing.lookup key = some known) :
    key = lowerName known := h (key, known) (mem_of_lookup hk)

/-- The casing of an identifier is a word. -/
theorem Learned.allWord (h : Learned casing) (hword : IsIdentifier word)
    (hk : casing.lookup (ofList (lower word)) = some known) :
    known.toList ≠ [] ∧ Text.AllWord known.toList := by
  have hlower : lower word = lower known.toList := by
    have := congrArg toList (h.lookup hk)
    simpa [lowerName] using this
  have hplain : ∀ d ∈ lower word, isPlainLetter d = true :=
    isPlainLetter_lowerFrom fun c hc => isPlainLetter_of_identifier (hword.2 c hc)
  rw [hlower] at hplain
  refine ⟨fun hnil => ?_, allWord_of_lowerFrom hplain⟩
  rw [hnil] at hlower
  exact hword.1 (eq_nil_of_lowerFrom hlower)

/-- A word is replaced by its casing, if one is known. -/
def recase (casing : List (String × String)) (t word : List Char) : List Char :=
  match casing.lookup (ofList (lower word)) with
  | none => t
  | some known => if known.toList = word then t else (wholeWord word).substitute (Template.plain known.toList) t

theorem fixWord_ok (h : Learned casing) (hword : IsIdentifier word) : fixWord casing t word = .ok (recase casing t word) := by
  unfold fixWord recase
  cases hk : casing.lookup (ofList (lower word)) with
  | none => rfl
  | some known =>
    have hplain : '\\' ∉ known.toList := fun hmem => absurd ((h.allWord hword hk).2 _ hmem) (by decide)
    simp only [Template.read_plain hplain]
    split <;> rfl

theorem foldlM_fixWord (h : Learned casing) {words : List (List Char)} (hwords : ∀ w ∈ words, IsIdentifier w) :
    words.foldlM (fixWord casing) t = .ok (words.foldl (recase casing) t) := by
  induction words generalizing t with
  | nil => rfl
  | cons w words ih =>
    rw [foldlM_cons, fixWord_ok h (hwords w (.head _))]
    exact ih fun v hv => hwords v (.tail _ hv)

/-- Every identifier in its casing. -/
def recased (casing : List (String × String)) (s : String) : String :=
  ofList ((identifierPattern.findAll s.toList).foldl (recase casing) s.toList)

theorem normalizeText_ok (h : Learned casing) (s) : normalizeText casing s = .ok (recased casing s) := by
  rw [normalizeText, foldlM_fixWord h fun _ => isIdentifier_of_findAll]
  rfl

theorem recased_nil (s) : recased [] s = s := by
  have hwords : ∀ words : List (List Char), words.foldl (recase []) s.toList = s.toList := fun words => by
    induction words with
    | nil => rfl
    | cons word words ih => exact ih
  rw [recased, hwords, ofList_toList]

theorem normalize_text (h : Learned casing) (s) : normalize casing (.text s) = .ok (.text (recased casing s)) := by
  by_cases hp : (Value.text s).isPresent = true
  · simp [normalize, hp, normalizeText_ok h, Except.map]
  · have hs : s = "" := by simpa [Value.isPresent] using hp
    subst hs
    rfl

end Conversion

end MappingFlow
