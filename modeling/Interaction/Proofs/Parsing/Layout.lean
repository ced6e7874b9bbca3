import Interaction.Proofs.Parsing.Repetition

/-!
This module contains what the readers of layout and of names find: all the layout there is, and the
longest name there is.
-/

namespace Interaction

/-- Whether a text has layout at its front, and the other text after it. -/
inductive Skips : List Char → List Char → Prop where
  | done (text : List Char) : Skips text text
  | space {x : Char} {text rest : List Char} :
    Parser.isSpace x = true → Skips text rest → Skips (x :: text) rest
  | comment {body text rest : List Char} :
    '\n' ∉ body → (∀ x, text.head? = some x → x = '\n') → Skips text rest →
      Skips ('/' :: '/' :: (body ++ text)) rest

structure Settled (text : List Char) : Prop where
  noSpace : ∀ x, text.head? = some x → Parser.isSpace x = false
  noComment : ¬['/', '/'] <+: text

variable {a b text text' rest rest' : List Char}

theorem settled_nil : Settled [] := ⟨by simp, by simp⟩

theorem settled_cons {x : Char} (noSpace : Parser.isSpace x = false) (ne : x ≠ '/') :
    Settled (x :: text) := by
  constructor
  . intro y eq
    cases eq
    exact noSpace
  . intro h
    rw [List.cons_prefix_cons] at h
    exact ne h.1.symm

theorem settled_cons_of_mem {x : Char} {chars : List Char}
    (noLayout : (chars.all fun x => !Parser.isSpace x && x != '/') = true) (mem : x ∈ chars) :
    Settled (x :: text) := by
  have := List.all_eq_true.1 noLayout x mem
  rw [Bool.and_eq_true, Bool.not_eq_true', bne_iff_ne] at this
  exact settled_cons this.1 this.2

theorem Skips.trans (h : Skips text a) (last : Skips a b) : Skips text b := by
  induction h with
  | done => exact last
  | space isSpace _ ih => exact .space isSpace (ih last)
  | comment inLine stop _ ih => exact .comment inLine stop (ih last)

theorem Skips.suffix (h : Skips text rest) : rest <:+ text := by
  induction h with
  | done => exact List.suffix_refl _
  | space _ _ ih => exact ih.trans (List.suffix_cons _ _)
  | @comment body _ _ _ _ _ ih => exact ih.trans (List.suffix_append ('/' :: '/' :: body) _)

theorem Skips.of_spaces (spaces : ∀ x ∈ a, Parser.isSpace x = true) : Skips (a ++ rest) rest := by
  induction a with
  | nil => exact .done rest
  | cons x a ih =>
    apply Skips.space
    . exact spaces x List.mem_cons_self
    . exact ih fun y mem => spaces y (List.mem_cons_of_mem x mem)

theorem Skips.eq_of_settled (h : Skips text rest) (settled : Settled text) : rest = text := by
  cases h with
  | done => rfl
  | space isSpace _ =>
    rw [settled.noSpace _ rfl] at isSpace
    cases isSpace
  | comment => exact absurd (List.prefix_append ['/', '/'] _) settled.noComment

theorem comment_unique (inLine : '\n' ∉ a) (stop : ∀ x, rest.head? = some x → x = '\n')
    (inLine' : '\n' ∉ b) (stop' : ∀ x, rest'.head? = some x → x = '\n')
    (eq : a ++ rest = b ++ rest') : rest = rest' := by
  -- what comes after a comment is what is left without the characters of its line
  have dropped : ∀ body text : List Char, '\n' ∉ body → (∀ x, text.head? = some x → x = '\n') →
      (body ++ text).dropWhile (· ≠ '\n') = text := by
    intro body text inLine stop
    rw [List.dropWhile_append_of_pos]
    . cases text with
      | nil => rfl
      | cons x text =>
        rw [stop x rfl]
        rfl
    . intro x mem
      simp only [ne_eq, decide_eq_true_eq]
      rintro rfl
      exact inLine mem
  rw [← dropped a rest inLine stop, eq, dropped b rest' inLine' stop']

theorem Skips.unique (h : Skips text rest) (settled : Settled rest) (h' : Skips text rest')
    (settled' : Settled rest') : rest = rest' := by
  induction h generalizing rest' with
  | done => exact (h'.eq_of_settled settled).symm
  | space isSpace _ ih =>
    cases h' with
    | done =>
      rw [settled'.noSpace _ rfl] at isSpace
      cases isSpace
    | space _ inner => exact ih settled inner settled'
    | comment => cases isSpace
  | @comment body text rest inLine stop _ ih =>
    -- the other layout begins with two slashes too, so that it is a comment
    generalize whole : '/' :: '/' :: (body ++ text) = start at h'
    cases h' with
    | done =>
      rw [← whole] at settled'
      exact absurd (List.prefix_append ['/', '/'] _) settled'.noComment
    | space isSpace _ =>
      cases whole
      cases isSpace
    | comment inLine' stop' inner =>
      simp only [List.cons.injEq, true_and] at whole
      rw [comment_unique inLine stop inLine' stop' whole] at ih
      exact ih settled inner settled'

def IsName (s : String) : Prop := s ≠ "" ∧ s.toList.all Parser.isNameChar = true

instance (s : String) : Decidable (IsName s) := inferInstanceAs (Decidable (_ ∧ _))

def NameEnds (text : List Char) : Prop := ∀ x, text.head? = some x → Parser.isNameChar x = false

theorem nameEnds_cons {x : Char} (h : Parser.isNameChar x = false) : NameEnds (x :: text) := by
  intro y eq
  cases eq
  exact h

theorem isNameChar_of_isSpace {x : Char} (h : Parser.isSpace x = true) :
    Parser.isNameChar x = false := by
  unfold Parser.isSpace at h
  simp only [Bool.or_eq_true, beq_iff_eq] at h
  rcases h with ((rfl | rfl) | rfl) | rfl <;> decide

theorem IsName.ne_nil {s : String} (h : IsName s) : s.toList ≠ [] := by
  rw [Ne, String.toList_eq_nil_iff]
  exact h.1

theorem IsName.settled {s : String} (h : IsName s) : Settled (s.toList ++ rest) := by
  obtain ⟨some, chars⟩ := h
  match eq : s.toList with
  | [] => exact absurd (String.toList_eq_nil_iff.1 eq) some
  | x :: tail =>
    have isNameChar : Parser.isNameChar x = true := by
      rw [eq, List.all_cons, Bool.and_eq_true] at chars
      exact chars.1
    apply settled_cons
    . rw [← Bool.not_eq_true]
      intro isSpace
      rw [isNameChar_of_isSpace isSpace] at isNameChar
      cases isNameChar
    . rintro rfl
      exact absurd isNameChar (by decide)

theorem NameEnds.of_skips (ends : NameEnds rest) (skips : Skips text rest) : NameEnds text := by
  cases skips with
  | done => exact ends
  | space isSpace _ => exact nameEnds_cons (isNameChar_of_isSpace isSpace)
  | comment => exact nameEnds_cons (by decide)

namespace Parser

variable {c c' : Cursor} {u : Unit} {s : String}

theorem skips_of_blank (h : blank.result c = some (u, c')) :
    Skips c.rest c'.rest ∧ c'.left < c.left := by
  unfold blank at h
  rw [result_orElse, Option.or_eq_some_iff] at h
  rcases h with h | ⟨_, h⟩
  . rw [result_bind_eq_some_iff] at h
    obtain ⟨_, c₁, found, last⟩ := h
    rw [result_takeWhile1] at found
    split at found
    . cases found
    . next some =>
      cases found
      cases last
      have whole := List.takeWhile_append_dropWhile (p := isSpace) (l := c.rest)
      rw [← rest_forward_takeWhile] at whole
      constructor
      . conv =>
          arg 1
          rw [← whole]
        exact Skips.of_spaces (List.all_eq_true.1 List.all_takeWhile)
      . exact Cursor.left_lt_of_append whole.symm some
  . rw [result_bind_eq_some_iff] at h
    obtain ⟨_, c₁, slashes, h⟩ := h
    rw [result_bind_of result_takeWhile] at h
    cases h
    have start := rest_of_literal slashes
    have whole := List.takeWhile_append_dropWhile (p := fun x => x != '\n') (l := c₁.rest)
    rw [← rest_forward_takeWhile] at whole
    rw [← whole] at start
    constructor
    . rw [start]
      change Skips ('/' :: '/' :: (c₁.rest.takeWhile _ ++ _)) _
      apply Skips.comment _ _ (.done _)
      . intro mem
        have := List.all_eq_true.1 List.all_takeWhile _ mem
        simp at this
      . intro x head
        rw [rest_forward_takeWhile] at head
        have := List.head?_dropWhile_not (fun x => x != '\n') c₁.rest
        rw [head] at this
        simpa using this
    . rw [← List.append_assoc] at start
      exact Cursor.left_lt_of_append start (by simp)

theorem settled_of_blank (h : blank.result c = none) : Settled c.rest := by
  unfold blank at h
  rw [result_orElse, Option.or_eq_none_iff] at h
  obtain ⟨spaces, slashes⟩ := h
  constructor
  . intro x head
    rw [result_bind, result_takeWhile1] at spaces
    split at spaces
    . next none =>
      match eq : c.rest with
      | [] => simp [eq] at head
      | y :: rest =>
        rw [eq] at head none
        cases head
        rw [List.takeWhile_cons] at none
        simpa using none
    . cases spaces
  . intro comment
    obtain ⟨rest, eq⟩ := comment
    obtain ⟨c₁, found, _⟩ := result_literal_of (s := "//") eq.symm
    rw [result_bind_of found, result_bind_of result_takeWhile] at slashes
    cases slashes

theorem layout_eq : layout = manyOf blank >>= fun _ => pure () := rfl

theorem result_layout (c : Cursor) :
    ∃ c', layout.result c = some ((), c') ∧ Skips c.rest c'.rest ∧ Settled c'.rest := by
  have all : ∃ us c', (manyOf blank).result c = some (us, c') ∧
      Skips c.rest c'.rest ∧ Settled c'.rest := by
    induction n : c.left using Nat.strongRecOn generalizing c with
    | _ n ih =>
      match found : blank.result c with
      | none =>
        exact ⟨[], c, result_many_of_none found, .done _, settled_of_blank found⟩
      | some (u, c₁) =>
        obtain ⟨skips, less⟩ := skips_of_blank found
        obtain ⟨us, c', others, rest, settled⟩ := ih c₁.left (n ▸ less) c₁ rfl
        exact ⟨u :: us, c', result_many_of found less others, skips.trans rest, settled⟩
  obtain ⟨us, c', found, rest⟩ := all
  refine ⟨c', ?_, rest⟩
  rw [layout_eq, result_bind_of found]
  rfl

theorem skips_of_layout (h : layout.result c = some (u, c')) :
    Skips c.rest c'.rest ∧ Settled c'.rest := by
  obtain ⟨c₁, found, rest⟩ := result_layout c
  rw [found] at h
  cases h
  exact rest

theorem result_layout_of (h : Skips c.rest rest) (settled : Settled rest) :
    ∃ c', layout.result c = some ((), c') ∧ c'.rest = rest := by
  obtain ⟨c', found, skips, settled'⟩ := result_layout c
  exact ⟨c', found, skips.unique settled' h settled⟩

theorem result_blank_of_settled (settled : Settled c.rest) : blank.result c = none := by
  match found : blank.result c with
  | none => rfl
  | some (u, c') =>
    obtain ⟨skips, less⟩ := skips_of_blank found
    rw [Cursor.left_lt_iff, skips.eq_of_settled settled] at less
    exact absurd less (Nat.lt_irrefl _)

theorem result_layout_of_settled (settled : Settled c.rest) :
    layout.result c = some ((), c) := by
  rw [layout_eq, result_bind_of (result_many_of_none (result_blank_of_settled settled))]
  rfl

theorem result_repeated_of_settled {α : Type} {p : Parser α}
    (moves : ∀ c a c', p.result c = some (a, c') → c'.left < c.left)
    (settled : Settled c.rest) :
    (repeated p).result c = (manyOf (do layout; p)).result c := by
  have same : (do layout; p : Parser α).result c = p.result c :=
    result_bind_of (result_layout_of_settled settled)
  rw [repeated_eq]
  match found : p.result c with
  | none =>
    rw [result_many_of_none (same.trans found), result_orElse_of_none (result_bind_of_none found)]
    rfl
  | some (a, c₁) =>
    have less := moves c a c₁ found
    obtain ⟨as, c₂, others⟩ := exists_result_many (p := do layout; p) c₁
    rw [result_many_of (same.trans found) less others]
    apply result_orElse_of
    rw [result_bind_of found, result_bind_of others]
    rfl

theorem rest_of_name (h : name.result c = some (s, c')) :
    IsName s ∧ c.rest = s.toList ++ c'.rest := by
  unfold name at h
  rw [result_expecting, result_takeWhile1] at h
  split at h
  . cases h
  . next some =>
    cases h
    refine ⟨⟨?_, ?_⟩, ?_⟩
    . rw [Ne, String.ofList_eq_empty_iff]
      exact some
    . rw [String.toList_ofList]
      exact List.all_takeWhile
    . rw [String.toList_ofList, rest_forward_takeWhile]
      exact List.takeWhile_append_dropWhile.symm

theorem result_name_of (isName : IsName s) (h : c.rest = s.toList ++ rest)
    (stop : NameEnds rest) :
    ∃ c', name.result c = some (s, c') ∧ c'.rest = rest := by
  have taken : c.rest.takeWhile isNameChar = s.toList := by
    rw [h, List.takeWhile_append_of_pos (List.all_eq_true.1 isName.2)]
    match rest with
    | [] => rw [List.takeWhile_nil, List.append_nil]
    | x :: rest => rw [List.takeWhile_cons, stop x rfl, if_neg Bool.false_ne_true, List.append_nil]
  refine ⟨c.forward s.toList.length, ?_, ?_⟩
  . unfold name
    rw [result_expecting, result_takeWhile1, taken, if_neg isName.ne_nil, String.ofList_toList]
  . rw [Cursor.rest_forward, h, List.drop_left]

end Parser

end Interaction
