import Interaction.Proofs.Language.Series

/-!
This module contains properties of languages that can be read off their text: what they begin with,
which repetitions they end with, and whether they may be empty.
-/

namespace Interaction

namespace Language

open Computability

mutual

def Each (p : Language → Prop) : Language → Prop
  | .event e => p (.event e)
  | .sequence parts => p (.sequence parts) ∧ EachOf p parts
  | .either branches => p (.either branches) ∧ EachOf p branches
  | .optional body => p (.optional body) ∧ Each p body
  | .zeroOrMore body => p (.zeroOrMore body) ∧ Each p body
  | .oneOrMore body => p (.oneOrMore body) ∧ Each p body

def EachOf (p : Language → Prop) : List Language → Prop
  | [] => True
  | l :: rest => Each p l ∧ EachOf p rest

end

mutual

def nullable : Language → Bool
  | .event _ => false
  | .sequence parts => allNullable parts
  | .either branches => anyNullable branches
  | .optional _ => true
  | .zeroOrMore _ => true
  | .oneOrMore body => nullable body

def allNullable : List Language → Bool
  | [] => true
  | l :: rest => nullable l && allNullable rest

def anyNullable : List Language → Bool
  | [] => false
  | l :: rest => nullable l || anyNullable rest

end

mutual

def heads : Language → List (Option Event)
  | .event e => [some e]
  | .sequence parts => headsOfParts parts
  | .either branches => headsOfBranches branches
  | .optional body => none :: heads body
  | .zeroOrMore _ => [none]
  | .oneOrMore body => heads body

def headsOfParts : List Language → List (Option Event)
  | [] => [none]
  | l :: _ => heads l

def headsOfBranches : List Language → List (Option Event)
  | [] => []
  | l :: rest => heads l ++ headsOfBranches rest

end

mutual

def loops : Language → List Language
  | .event _ => []
  | .sequence parts => loopsOfParts parts
  | .either branches => loopsOfBranches branches
  | .optional body => loops body
  | .zeroOrMore body => body :: loops body
  | .oneOrMore body => body :: loops body

def loopsOfParts : List Language → List Language
  | [] => []
  | [l] => loops l
  | _ :: rest => loopsOfParts rest

def loopsOfBranches : List Language → List Language
  | [] => []
  | l :: rest => loops l ++ loopsOfBranches rest

end

/--
Whether the end of a language is only passed through: the language ends with repetitions, and each
of their bodies begins silently but is not empty.
-/
def hidesEnd (l : Language) : Bool :=
  !l.loops.isEmpty && l.loops.all fun body => !body.nullable && body.heads.all Option.isNone

theorem hidesEnd_eq_false_iff {l : Language} :
    l.hidesEnd = false ↔
      l.loops = [] ∨ (∃ body ∈ l.loops, ∃ e, some e ∈ body.heads) ∨
        ∃ body ∈ l.loops, body.nullable = true := by
  have silent : ∀ body : Language,
      body.heads.all Option.isNone = false ↔ ∃ e, some e ∈ body.heads := by
    intro body
    rw [List.all_eq_false]
    constructor
    . rintro ⟨label, mem, notNone⟩
      obtain ⟨e, rfl⟩ := Option.ne_none_iff_exists'.1 (by simpa using notNone)
      exact ⟨e, mem⟩
    . rintro ⟨e, mem⟩
      exact ⟨some e, mem, by simp⟩
  unfold hidesEnd
  rw [Bool.and_eq_false_iff, Bool.not_eq_false', List.isEmpty_iff, List.all_eq_false, ← exists_or]
  apply or_congr_right
  apply exists_congr
  intro body
  rw [← and_or_left]
  apply and_congr_right
  intro _
  rw [Bool.not_eq_true, Bool.and_eq_false_iff, silent, Bool.not_eq_false', or_comm]

variable {p q : Language → Prop}

mutual

theorem Each.mono (imp : ∀ l, p l → q l) {l : Language} (h : l.Each p) : l.Each q := by
  cases l with
  | event e => exact imp _ h
  | sequence parts => exact ⟨imp _ h.1, EachOf.mono imp h.2⟩
  | either branches => exact ⟨imp _ h.1, EachOf.mono imp h.2⟩
  | optional body => exact ⟨imp _ h.1, Each.mono imp h.2⟩
  | zeroOrMore body => exact ⟨imp _ h.1, Each.mono imp h.2⟩
  | oneOrMore body => exact ⟨imp _ h.1, Each.mono imp h.2⟩

theorem EachOf.mono (imp : ∀ l, p l → q l) {ls : List Language} (h : EachOf p ls) :
    EachOf q ls := by
  match ls with
  | [] => trivial
  | l :: rest => exact ⟨Each.mono imp h.1, EachOf.mono imp h.2⟩

end

theorem eachOf_iff {ls : List Language} : EachOf p ls ↔ ∀ l ∈ ls, l.Each p := by
  induction ls with
  | nil => simp [EachOf]
  | cons l rest ih => simp [EachOf, ih]

theorem nil_mem_mul {S T : SeriesSet Event} : [] ∈ S * T ↔ [] ∈ S ∧ [] ∈ T := by
  rw [Language.mem_mul]
  constructor
  . rintro ⟨v, hv, w, hw, eq⟩
    rw [List.append_eq_nil_iff] at eq
    obtain ⟨rfl, rfl⟩ := eq
    exact ⟨hv, hw⟩
  . rintro ⟨hv, hw⟩
    exact ⟨[], hv, [], hw, rfl⟩

mutual

theorem nil_mem_across_iff (l : Language) : [] ∈ l.flow.across ↔ l.nullable = true := by
  cases l with
  | event e =>
    simp only [flow, nullable, Bool.false_eq_true, iff_false]
    intro mem
    exact absurd (Set.mem_singleton_iff.1 mem) (List.cons_ne_nil e []).symm
  | sequence parts => exact nil_mem_acrossOfParts_iff parts
  | either branches => exact nil_mem_acrossOfBranches_iff branches
  | optional body =>
    simp only [flow, nullable, iff_true]
    exact .inl rfl
  | zeroOrMore body => simp [flow, nullable]
  | oneOrMore body => exact nil_mem_across_iff body

theorem nil_mem_acrossOfParts_iff (parts : List Language) :
    [] ∈ (flowOfParts parts).across ↔ allNullable parts = true := by
  match parts with
  | [] => simp [flowOfParts, allNullable]
  | [l] => simpa [flowOfParts, allNullable] using nil_mem_across_iff l
  | l :: next :: rest =>
    have first := nil_mem_across_iff l
    have others := nil_mem_acrossOfParts_iff (next :: rest)
    -- the loops between the parts may be left out
    rw [flowOfParts, allNullable, nil_mem_mul, nil_mem_mul, first, others, Bool.and_eq_true]
    . simp [Language.nil_mem_kstar]
    . simp

theorem nil_mem_acrossOfBranches_iff (branches : List Language) :
    [] ∈ (flowOfBranches branches).across ↔ anyNullable branches = true := by
  match branches with
  | [] => simp [flowOfBranches, anyNullable]
  | l :: rest =>
    have first := nil_mem_across_iff l
    have others := nil_mem_acrossOfBranches_iff rest
    rw [flowOfBranches, anyNullable, Language.mem_add, first, others, Bool.or_eq_true]

end

mutual

theorem mem_around_iff (l : Language) {w : List Event} :
    w ∈ l.flow.around ↔ ∃ body ∈ l.loops, w ∈ body.flow.across := by
  cases l with
  | event e => simp [flow, loops]
  | sequence parts => exact mem_aroundOfParts_iff parts
  | either branches => exact mem_aroundOfBranches_iff branches
  | optional body => exact mem_around_iff body
  | zeroOrMore body =>
    simp only [flow, loops, Language.mem_add, List.exists_mem_cons_iff, mem_around_iff body]
  | oneOrMore body =>
    simp only [flow, loops, Language.mem_add, List.exists_mem_cons_iff, mem_around_iff body]

theorem mem_aroundOfParts_iff (parts : List Language) {w : List Event} :
    w ∈ (flowOfParts parts).around ↔ ∃ body ∈ loopsOfParts parts, w ∈ body.flow.across := by
  match parts with
  | [] => simp [flowOfParts, loopsOfParts]
  | [l] => simpa [flowOfParts, loopsOfParts] using mem_around_iff l
  | l :: next :: rest =>
    rw [flowOfParts, loopsOfParts]
    . exact mem_aroundOfParts_iff (next :: rest)
    . simp
    . simp

theorem mem_aroundOfBranches_iff (branches : List Language) {w : List Event} :
    w ∈ (flowOfBranches branches).around ↔
      ∃ body ∈ loopsOfBranches branches, w ∈ body.flow.across := by
  match branches with
  | [] => simp [flowOfBranches, loopsOfBranches]
  | l :: rest =>
    simp only [flowOfBranches, loopsOfBranches, Language.mem_add, List.mem_append, or_and_right,
      exists_or]
    exact or_congr (mem_around_iff l) (mem_aroundOfBranches_iff rest)

end

mutual

theorem exists_mem_series {l : Language} (h : l.Each (· ≠ .either [])) : ∃ w, w ∈ l.series := by
  cases l with
  | event e => exact ⟨[e], rfl⟩
  | sequence parts => exact exists_mem_seriesOfParts h.2
  | either branches =>
    apply exists_mem_seriesOfBranches _ h.2
    rintro rfl
    exact h.1 rfl
  | optional body => exact ⟨[], .inl rfl⟩
  | zeroOrMore body => exact ⟨[], Language.nil_mem_kstar _⟩
  | oneOrMore body =>
    obtain ⟨w, mem⟩ := exists_mem_series h.2
    exact ⟨w ++ [], Language.append_mem_mul mem (Language.nil_mem_kstar _)⟩

theorem exists_mem_seriesOfParts {parts : List Language} (h : EachOf (· ≠ .either []) parts) :
    ∃ w, w ∈ seriesOfParts parts := by
  match parts with
  | [] => exact ⟨[], rfl⟩
  | l :: rest =>
    obtain ⟨v, first⟩ := exists_mem_series h.1
    obtain ⟨w, others⟩ := exists_mem_seriesOfParts h.2
    exact ⟨v ++ w, Language.append_mem_mul first others⟩

theorem exists_mem_seriesOfBranches {branches : List Language} (some : branches ≠ [])
    (h : EachOf (· ≠ .either []) branches) : ∃ w, w ∈ seriesOfBranches branches := by
  match branches with
  | [] => exact absurd rfl some
  | l :: rest =>
    obtain ⟨w, mem⟩ := exists_mem_series h.1
    exact ⟨w, .inl mem⟩

end

theorem heads_ne_nil {l : Language} (h : l.Each (· ≠ .either [])) : l.heads ≠ [] := by
  cases l with
  | event e => simp [heads]
  | sequence parts =>
    match parts with
    | [] => simp [heads, headsOfParts]
    | first :: rest =>
      rw [heads, headsOfParts]
      exact heads_ne_nil h.2.1
  | either branches =>
    match branches with
    | [] => exact absurd rfl h.1
    | first :: rest =>
      rw [heads, headsOfBranches]
      exact List.append_ne_nil_of_left_ne_nil (heads_ne_nil h.2.1) _
  | optional body => simp [heads]
  | zeroOrMore body => simp [heads]
  | oneOrMore body =>
    rw [heads]
    exact heads_ne_nil h.2

mutual

theorem Each.loops {l : Language} (h : l.Each p) : EachOf p l.loops := by
  cases l with
  | event e => trivial
  | sequence parts => exact EachOf.loopsOfParts h.2
  | either branches => exact EachOf.loopsOfBranches h.2
  | optional body =>
    rw [Language.loops]
    exact Each.loops h.2
  | zeroOrMore body => exact ⟨h.2, Each.loops h.2⟩
  | oneOrMore body => exact ⟨h.2, Each.loops h.2⟩

theorem EachOf.loopsOfParts {parts : List Language} (h : EachOf p parts) :
    EachOf p (loopsOfParts parts) := by
  match parts with
  | [] => trivial
  | [l] => exact Each.loops h.1
  | l :: next :: rest =>
    rw [Language.loopsOfParts]
    . exact EachOf.loopsOfParts h.2
    . simp

theorem EachOf.loopsOfBranches {branches : List Language} (h : EachOf p branches) :
    EachOf p (loopsOfBranches branches) := by
  match branches with
  | [] => trivial
  | l :: rest =>
    rw [Language.loopsOfBranches, eachOf_iff]
    intro body mem
    cases List.mem_append.1 mem with
    | inl mem => exact eachOf_iff.1 (Each.loops h.1) body mem
    | inr mem => exact eachOf_iff.1 (EachOf.loopsOfBranches h.2) body mem

end

end Language

end Interaction
