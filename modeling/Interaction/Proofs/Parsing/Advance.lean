import Interaction.Proofs.Parsing.Layout

/-!
This module contains that readers only move forward: between the place where a reader begins and the
place where it stops lies a part of the text, and the offsets count its bytes.
-/

namespace Interaction

namespace Text

theorem byteSize_append (a b : List Char) : byteSize (a ++ b) = byteSize a + byteSize b := by
  induction a with
  | nil => simp [byteSize]
  | cons x a ih => simp [byteSize, ih, Nat.add_assoc]

theorem byteSize_pos {a : List Char} (ne : a ≠ []) : 0 < byteSize a := by
  cases a with
  | nil => exact absurd rfl ne
  | cons x a =>
    have := x.utf8Size_pos
    unfold byteSize
    omega

end Text

namespace Cursor

variable {c c' c'' : Cursor} {a b : List Char}

structure Passes (c : Cursor) (text : List Char) (c' : Cursor) : Prop where
  rest_eq : c.rest = text ++ c'.rest
  offset_eq : c'.offset = c.offset + Text.byteSize text

theorem Passes.refl (c : Cursor) : c.Passes [] c := ⟨rfl, rfl⟩

theorem Passes.trans (h : c.Passes a c') (h' : c'.Passes b c'') : c.Passes (a ++ b) c'' := by
  constructor
  . rw [h.rest_eq, h'.rest_eq, List.append_assoc]
  . rw [h'.offset_eq, h.offset_eq, Text.byteSize_append, Nat.add_assoc]

theorem Passes.offset_lt (h : c.Passes a c') (ne : a ≠ []) : c.offset < c'.offset := by
  have := Text.byteSize_pos ne
  rw [h.offset_eq]
  omega

theorem passes_forward (c : Cursor) (count : Nat) :
    c.Passes (c.rest.take count) (c.forward count) :=
  ⟨(List.take_append_drop count c.rest).symm, rfl⟩

def Reaches (c c' : Cursor) : Prop := ∃ text, c.Passes text c'

theorem Reaches.refl (c : Cursor) : c.Reaches c := ⟨[], .refl c⟩

theorem Reaches.trans (h : c.Reaches c') (h' : c'.Reaches c'') : c.Reaches c'' := by
  obtain ⟨a, first⟩ := h
  obtain ⟨b, last⟩ := h'
  exact ⟨a ++ b, first.trans last⟩

theorem Reaches.offset_le (h : c.Reaches c') : c.offset ≤ c'.offset := by
  obtain ⟨text, passes⟩ := h
  rw [passes.offset_eq]
  exact Nat.le_add_right _ _

theorem Reaches.left_le (h : c.Reaches c') : c'.left ≤ c.left := by
  obtain ⟨text, passes⟩ := h
  rw [c.left_eq, c'.left_eq, passes.rest_eq, List.length_append]
  exact Nat.le_add_left _ _

theorem Reaches.offset_lt (h : c.Reaches c') (less : c'.left < c.left) :
    c.offset < c'.offset := by
  obtain ⟨text, passes⟩ := h
  apply passes.offset_lt
  rintro rfl
  rw [left_lt_iff, passes.rest_eq] at less
  exact absurd less (Nat.lt_irrefl _)

theorem passes_of_reaches (h : c.Reaches c') (eq : c.rest = a ++ c'.rest) : c.Passes a c' := by
  obtain ⟨text, passes⟩ := h
  rw [passes.rest_eq, List.append_cancel_right_eq] at eq
  exact eq ▸ passes

end Cursor

namespace Parser

variable {α β : Type} {p q : Parser α} {f : α → Parser β} {a : α} {c c' : Cursor}

/-- Whether a reader stops where it began or further on. -/
def Advances (p : Parser α) : Prop := ∀ c a c', p.result c = some (a, c') → c.Reaches c'

theorem advances_of_eq (h : ∀ c a c', p.result c = some (a, c') → c' = c) : Advances p := by
  intro c a c' found
  rw [h c a c' found]
  exact .refl c

theorem advances_pure : Advances (pure a : Parser α) := by
  apply advances_of_eq
  intro c b c' found
  cases found
  rfl

theorem Advances.bind (h : Advances p) (h' : ∀ a, Advances (f a)) : Advances (p >>= f) := by
  intro c b c'' found
  obtain ⟨a, c', first, last⟩ := result_bind_eq_some_iff.1 found
  exact (h c a c' first).trans (h' a c' b c'' last)

theorem Advances.map (h : Advances p) (g : α → β) : Advances (g <$> p) :=
  h.bind fun _ => advances_pure

theorem Advances.orElse (h : Advances p) (h' : Advances q) : Advances (p <|> q) := by
  intro c a c' found
  rw [result_orElse, Option.or_eq_some_iff] at found
  rcases found with found | ⟨_, found⟩
  . exact h c a c' found
  . exact h' c a c' found

theorem Advances.optional (h : Advances p) : Advances (optional p) := by
  rw [optional_eq]
  exact (h.map some).orElse advances_pure

theorem Advances.expecting (h : Advances p) (x : Expectation) : Advances (expecting x p) := by
  intro c a c' found
  rw [result_expecting] at found
  exact h c a c' found

theorem advances_fail : Advances (fail : Parser α) := by
  intro c a c' found
  cases found

theorem advances_offset : Advances offset := by
  apply advances_of_eq
  intro c n c' found
  cases found
  rfl

theorem advances_literal (s : String) : Advances (literal s) := by
  intro c u c' found
  rw [result_literal, Option.map_eq_some_iff] at found
  obtain ⟨_, moved, same⟩ := found
  cases same
  unfold Cursor.literal? at moved
  split at moved
  . cases moved
    exact ⟨_, c.passes_forward _⟩
  . cases moved

theorem passes_of_literal {s : String} {u : Unit} (h : (literal s).result c = some (u, c')) :
    c.Passes s.toList c' :=
  Cursor.passes_of_reaches (advances_literal s c u c' h) (rest_of_literal h)

theorem advances_takeWhile (g : Char → Bool) : Advances (takeWhile g) := by
  intro c s c' found
  rw [result_takeWhile] at found
  cases found
  exact ⟨_, c.passes_forward _⟩

theorem advances_takeWhile1 (g : Char → Bool) : Advances (takeWhile1 g) := by
  apply (advances_takeWhile g).bind
  intro taken
  split
  . exact advances_fail
  . exact advances_pure

theorem advances_notBefore (g : Char → Bool) : Advances (notBefore g) := by
  apply advances_of_eq
  intro c u c' found
  unfold result notBefore at found
  simp only at found
  split at found
  . cases found
  . cases found
    rfl

theorem Advances.manyOf (h : Advances p) : Advances (manyOf p) := by
  intro c as c' found
  have chain := chain_of_many found
  clear found
  induction chain with
  | nil c => exact .refl c
  | cons first _ ih => exact (h _ _ _ first).trans ih

theorem advances_blank : Advances blank :=
  ((advances_takeWhile1 _).bind fun _ => advances_pure).orElse
    ((advances_literal _).bind fun _ => (advances_takeWhile _).bind fun _ => advances_pure)

theorem advances_layout : Advances layout :=
  advances_blank.manyOf.bind fun _ => advances_pure

theorem advances_name : Advances name := (advances_takeWhile1 _).expecting _

theorem passes_of_name {s : String} (h : name.result c = some (s, c')) : c.Passes s.toList c' :=
  Cursor.passes_of_reaches (advances_name c s c' h) (rest_of_name h).2

theorem chain_of_repeated {as : List α} (h : (repeated p).result c = some (as, c')) :
    Chain (fun c a c' => ∃ c₁, c.Reaches c₁ ∧ p.result c₁ = some (a, c')) c as c' := by
  simp only [repeated_eq, result_bind_eq_some_iff, result_orElse, Option.or_eq_some_iff] at h
  rcases h with ⟨first, c₁, found, others, c₂, many, last⟩ | ⟨_, last⟩
  . cases last
    apply Chain.cons ⟨c, .refl c, found⟩
    apply (chain_of_many many).mono
    intro c a c' step
    rw [result_bind_eq_some_iff] at step
    obtain ⟨u, c₁, skipped, found⟩ := step
    exact ⟨c₁, advances_layout c u c₁ skipped, found⟩
  . cases last
    exact .nil c

theorem exists_reached_of_mem_repeated {as : List α} (advances : Advances p)
    (h : (repeated p).result c = some (as, c')) (mem : a ∈ as) :
    ∃ c₁ c₂, c.Reaches c₁ ∧ p.result c₁ = some (a, c₂) := by
  have chain := chain_of_repeated h
  clear h
  induction chain with
  | nil => cases mem
  | cons step _ ih =>
    obtain ⟨c₁, reaches, found⟩ := step
    rcases List.mem_cons.1 mem with rfl | mem
    . exact ⟨c₁, _, reaches, found⟩
    . obtain ⟨c₂, c₃, onward, found'⟩ := ih mem
      have first := reaches.trans (advances _ _ _ found)
      exact ⟨c₂, c₃, first.trans onward, found'⟩

theorem Advances.repeated (h : Advances p) : Advances (repeated p) := by
  have others : Advances (Parser.manyOf (do layout; p)) :=
    Advances.manyOf (advances_layout.bind fun _ => h)
  rw [repeated_eq]
  exact (h.bind fun _ => others.bind fun _ => advances_pure).orElse advances_pure

end Parser

end Interaction
