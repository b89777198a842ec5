/-
  MappingFlow.Proofs.Web.Listing — what a session says of the files it lists.

  A session is coherent with the files if no two listed files share a name, the file that
  is chosen is a listed one, the mapping that the session keeps is the one in that file and
  what it keeps as converted is that mapping converted (`Coherent`). The listed files are
  `Entry`s: where they lie is known from how they came into the list, so that what the
  application writes is written elsewhere (`Entry.Spot`, `Outlying`).
-/

import MappingFlow.Proofs.Storage.Elsewhere
import MappingFlow.Proofs.Web.Migration
import MappingFlow.Proofs.Web.Session
import MappingFlow.Web.Upload

namespace MappingFlow.Web

open List Option Session

/-! ## Listed files -/

structure Entry where
  name : String
  path : Path
  size : Value
  plain : Path.IsPlainName name
  clean : path.IsClean
  last : path.parts.getLast? = some name
  /-- It was handed over, or it was found by its ending. -/
  origin : path = ⟨false, ["temp", name]⟩ ∨ isMarkupName name = true

namespace Entry

def toValue (e : Entry) : Value := .object [("name", .text e.name), ("path", .text e.path.toText), ("size", e.size)]

/-- A place where the file may lie. -/
def Spot (e : Entry) (q : Place) : Prop :=
  q.getLast? = some e.name ∧ (q = ["temp", e.name] ∨ isMarkupName e.name = true)

theorem spot_of_locate {e : Entry} {files : Storage} {content : Encoding.Bytes}
    (h : files.locate e.path = .file q content) : e.Spot q := by
  have hat : Storage.Located.IsAt (files.locate e.path) q := .inr ⟨content, h⟩
  obtain ⟨n, -, hq, hlast⟩ := Storage.getLast?_of_locate hat
  refine ⟨by rw [hq, ← hlast, e.last], ?_⟩
  rcases e.origin with horigin | hmarkup
  · rw [horigin] at hat
    exact .inl (Storage.place_of_locate (by simpa using Ne.symm e.plain.2) hat)
  · exact .inr hmarkup

end Entry

/-- A place where no listed file lies. -/
def Outlying (r : Place) : Prop := ∃ n, isMarkupName n = false ∧ (r = [n] ∨ r = ["output", n])

theorem Entry.Spot.not_outlying {e : Entry} (h : e.Spot q) : ¬Outlying q := by
  rintro ⟨n, hn, hq⟩
  obtain ⟨hlast, hspot | hmarkup⟩ := h
  · subst hspot
    rcases hq with hq | hq
    · cases hq
    · injection hq with hfolder _
      exact absurd hfolder (by decide)
  · have hname : n = e.name := by
      rcases hq with rfl | rfl
      · exact some.inj hlast
      · exact some.inj hlast
    rw [hname, hmarkup] at hn
    cases hn

theorem isListed_entries (n : String) (es : List Entry) :
    isListed (.text n) (es.map Entry.toValue) = .ok (es.any (·.name == n)) := by
  induction es with
  | nil => rfl
  | cons e es ih =>
    have hsame : (Value.text e.name).same (.text n) = (e.name == n) := rfl
    have hfield : e.toValue.field "name" = .ok (.text e.name) := rfl
    rw [map_cons, isListed, hfield]
    change (if (Value.text e.name).same (.text n) then _ else _) = _
    rw [hsame, ih, any_cons]
    cases e.name == n <;> rfl

/-! ## Coherence -/

structure Coherent (rules : Rules) (es : List Entry) (s : Session) (files : Storage) : Prop where
  plain : files.IsPlain
  listed : s.getD .files (.list []) = .list (es.map Entry.toValue)
  distinct : (es.map (·.name)).Nodup
  path : s.isSet .path = true → ∃ e ∈ es, s.getD .path .null = .text e.path.toText
  loaded : s.isSet .loaded = true → s.isSet .path = true
  parsed : ∀ m, s.parsed = some (some m) → s.isSet .loaded = true ∧ mappingAt (s.getD .path .null) files = .ok m
  plan : s.getD .plan .null ≠ .null → ∃ m, s.parsed = some (some m) ∧
    (outcome (Conversion.convertMapping rules m) .start).1 = .ok (s.getD .plan .null)

theorem coherent_empty (h : files.IsPlain) : Coherent rules [] .empty files where
  plain := h
  listed := rfl
  distinct := nodup_nil
  path h := by cases h
  loaded h := by cases h
  parsed m h := by cases h
  plan h := absurd rfl h

/-- Changes where no listed file lies do no harm. -/
theorem Coherent.moved {P : Place → Prop} (h : Coherent rules es s files) (hchanged : files.ChangedOnly P files')
    (hP : ∀ e ∈ es, ∀ q, e.Spot q → ¬P q) : Coherent rules es s files' := by
  refine { h with plain := hchanged.plain h.plain, parsed := fun m hm => ?_ }
  obtain ⟨hloaded, hmapping⟩ := h.parsed m hm
  obtain ⟨e, he, hpath⟩ := h.path (h.loaded hloaded)
  refine ⟨hloaded, ?_⟩
  rw [hpath] at hmapping ⊢
  obtain ⟨p, content, hp, hread, hm⟩ := mappingAt_ok hmapping
  obtain rfl : e.path = p := by
    rw [← Path.read_toText e.clean]
    exact Except.ok.inj hp
  obtain ⟨hrefuse, q, hq⟩ := Storage.read_eq_ok.mp hread
  rw [mappingAt_of_read hp (Storage.read_eq_ok.mpr ⟨hrefuse, q, ?_⟩), hm]
  rw [Path.read_toText e.clean] at hq ⊢
  exact hchanged.kept hq (hP e he q (Entry.spot_of_locate hq))

/-! ## Changes of the session -/

namespace Coherent

/-- Four entries of the session and its mapping are looked at. -/
theorem congr (h : Coherent rules es s files) (hfiles : t.getD .files (.list []) = s.getD .files (.list []))
    (hpath : t.getD .path .null = s.getD .path .null) (hloaded : t.isSet .loaded = s.isSet .loaded)
    (hplan : t.getD .plan .null = s.getD .plan .null)
    (hparsed : ∀ m, t.parsed = some (some m) ↔ s.parsed = some (some m)) : Coherent rules es t files := by
  have hset : t.isSet .path = s.isSet .path := congrArg Value.isPresent hpath
  refine ⟨h.plain, hfiles.trans h.listed, h.distinct, ?_, ?_, ?_, ?_⟩
  · rw [hset, hpath]
    exact h.path
  · rw [hset, hloaded]
    exact h.loaded
  · intro m hm
    rw [hloaded, hpath]
    exact h.parsed m ((hparsed m).mp hm)
  · rw [hplan]
    intro hplan
    obtain ⟨m, hm, hconverted⟩ := h.plan hplan
    exact ⟨m, (hparsed m).mpr hm, hconverted⟩

theorem set_other (h : Coherent rules es s files) (v : Value)
    (hk : k ∉ [Slot.files, .path, .loaded, .plan]) : Coherent rules es (s.set k v) files := by
  simp only [mem_cons, not_mem_nil, or_false, not_or] at hk
  obtain ⟨hfiles, hpath, hloaded, hplan⟩ := hk
  refine h.congr ?_ ?_ ?_ ?_ fun _ => Iff.rfl
  · rw [getD_set, if_neg hfiles]
  · rw [getD_set, if_neg hpath]
  · rw [isSet_set, if_neg hloaded]
  · rw [getD_set, if_neg hplan]

theorem plan_null (h : Coherent rules es s files) (hparsed : s.parsed.getD none = none) :
    s.getD .plan .null = .null := by
  refine Classical.byContradiction fun hplan => ?_
  obtain ⟨m, hm, -⟩ := h.plan hplan
  rw [hm] at hparsed
  cases hparsed

/-- A new file is listed. -/
theorem list (h : Coherent rules es s files) (hnew : ∀ e' ∈ es, e'.name ≠ e.name) :
    Coherent rules (es ++ [e]) (s.set .files (.list (es.map Entry.toValue ++ [e.toValue]))) files where
  plain := h.plain
  listed := by simp
  distinct := by
    rw [map_append, nodup_append]
    refine ⟨h.distinct, by simp, ?_⟩
    intro a ha b hb
    obtain ⟨e', he', rfl⟩ := mem_map.mp ha
    obtain rfl := mem_singleton.mp hb
    exact hnew e' he'
  path hset := by
    obtain ⟨e', he', hpath⟩ := h.path (by simpa using hset)
    exact ⟨e', mem_append_left _ he', by simpa using hpath⟩
  loaded hset := by simpa using h.loaded (by simpa using hset)
  parsed m hm := by simpa using h.parsed m hm
  plan hplan := by simpa using h.plan (by simpa using hplan)

/-- A listed file is chosen. -/
theorem choose (h : Coherent rules es s files) (he : e ∈ es) (name) :
    Coherent rules es (s.choose (.text e.path.toText) name) files where
  plain := h.plain
  listed := by simpa [Session.choose] using h.listed
  distinct := h.distinct
  path _ := ⟨e, he, by simp [Session.choose]⟩
  loaded _ := by simpa [Session.choose, Value.isPresent] using Path.toText_ne_empty e.clean
  parsed m hm := by simp [Session.choose] at hm
  plan hplan := by simp [Session.choose] at hplan

theorem unchoose (h : Coherent rules es s files) : Coherent rules es s.unchoose files where
  plain := h.plain
  listed := by simpa [Session.unchoose] using h.listed
  distinct := h.distinct
  path hset := by simp [Session.unchoose, Value.isPresent] at hset
  loaded hset := by simp [Session.unchoose, Value.isPresent] at hset
  parsed m hm := by simp [Session.unchoose] at hm
  plan hplan := by simp [Session.unchoose] at hplan

/-- A file that is not the chosen one is taken off the list. -/
theorem eraseIdx (h : Coherent rules es s files) (hi : es[i]? = some e)
    (hother : s.isSet .path → s.getD .path .null ≠ .text e.path.toText) :
    Coherent rules (es.eraseIdx i) (s.set .files (.list ((es.map Entry.toValue).eraseIdx i))) files where
  plain := h.plain
  listed := by simp [eraseIdx_eq_take_drop_succ]
  distinct := h.distinct.sublist ((eraseIdx_sublist es i).map _)
  path hset := by
    have hchosen : s.isSet .path = true := by simpa using hset
    obtain ⟨e', he', hpath⟩ := h.path hchosen
    refine ⟨e', ?_, by simpa using hpath⟩
    obtain ⟨j, hj⟩ := mem_iff_getElem?.mp he'
    refine mem_eraseIdx_iff_getElem?.mpr ⟨j, ?_, hj⟩
    rintro rfl
    obtain rfl : e' = e := some.inj (hj.symm.trans hi)
    exact hother hchosen hpath
  loaded hset := by simpa using h.loaded (by simpa using hset)
  parsed m hm := by simpa using h.parsed m hm
  plan hplan := by simpa using h.plan (by simpa using hplan)

/-- A listed file becomes the one that is looked at, before it counts as chosen. -/
theorem setPath (h : Coherent rules es s files) (he : e ∈ es) (hpath : s.isSet .path = false) :
    Coherent rules es (s.set .path (.text e.path.toText)) files := by
  have hparsed : ∀ m, s.parsed ≠ some (some m) := by
    intro m hm
    rw [h.loaded (h.parsed m hm).1] at hpath
    cases hpath
  refine ⟨h.plain, by simpa using h.listed, h.distinct, fun _ => ⟨e, he, by simp⟩, fun _ => ?_, fun m hm => ?_, ?_⟩
  · simpa [Value.isPresent] using Path.toText_ne_empty e.clean
  · exact absurd hm (hparsed m)
  · intro hplan
    obtain ⟨m, hm, -⟩ := h.plan (by simpa using hplan)
    exact absurd hm (hparsed m)

theorem setLoaded (h : Coherent rules es s files) (hpath : s.isSet .path) :
    Coherent rules es (s.set .loaded (.bool true)) files where
  plain := h.plain
  listed := by simpa using h.listed
  distinct := h.distinct
  path hset := by simpa using h.path (by simpa using hset)
  loaded _ := by simpa using hpath
  parsed m hm := by simpa [Value.isPresent] using (h.parsed m hm).2
  plan hplan := by simpa using h.plan (by simpa using hplan)

/-- The mapping in the chosen file is kept. -/
theorem setParsed (h : Coherent rules es s files) (hloaded : s.isSet .loaded)
    (hparsed : s.parsed.getD none = none) (hm : mappingAt (s.getD .path .null) files = .ok m) :
    Coherent rules es (s.setParsed (some m)) files where
  plain := h.plain
  listed := h.listed
  distinct := h.distinct
  path := h.path
  loaded := h.loaded
  parsed m' hm' := by
    obtain rfl : m = m' := some.inj (some.inj hm')
    exact ⟨hloaded, hm⟩
  plan hplan := absurd (h.plan_null hparsed) hplan

theorem setPlan {plan : Value} (h : Coherent rules es s files) (hparsed : s.parsed = some (some m))
    (hplan : (outcome (Conversion.convertMapping rules m) .start).1 = .ok plan) :
    Coherent rules es (s.set .plan plan) files where
  plain := h.plain
  listed := by simpa using h.listed
  distinct := h.distinct
  path hset := by simpa using h.path (by simpa using hset)
  loaded hset := by simpa using h.loaded (by simpa using hset)
  parsed m hm := by simpa using h.parsed m hm
  plan _ := ⟨m, hparsed, by simpa using hplan⟩

end Coherent

end MappingFlow.Web
