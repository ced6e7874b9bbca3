import Interaction.Proofs.Language.Grammar
import Mathlib.Data.List.Basic

/-!
This module contains the pieces that texts of languages consist of. They are smaller than tokens,
because a text may go wrong between the keyword of an event and its name. A text consists of pieces
in one way at most.
-/

namespace Interaction

section Layout

variable {a b text rest : List Char}

theorem NameEnds.of_append (h : NameEnds (a ++ b)) : NameEnds a := by
  cases a with
  | nil => exact fun _ head => by cases head
  | cons x a => exact h

theorem NameEnds.of_head (h : NameEnds text) (same : text.head? = rest.head?) : NameEnds rest :=
  fun x head => h x (same.trans head)

theorem Skips.exchange (h : Skips text rest) (settled : Settled rest) :
    ∃ white, text = white ++ rest ∧ ∀ other : List Char,
      (rest = [] → ∀ x, other.head? = some x → x = '\n') → Skips (white ++ other) other := by
  induction h with
  | done text => exact ⟨[], rfl, fun other _ => .done other⟩
  | @space x _ _ isSpace _ ih =>
    obtain ⟨white, rfl, exchange⟩ := ih settled
    exact ⟨x :: white, rfl, fun other ends => .space isSpace (exchange other ends)⟩
  | @comment body _ rest inLine stop _ ih =>
    obtain ⟨white, rfl, exchange⟩ := ih settled
    refine ⟨'/' :: '/' :: (body ++ white), by simp, ?_⟩
    intro other ends
    simp only [List.cons_append, List.append_assoc]
    apply Skips.comment inLine _ (exchange other ends)
    cases white with
    | cons x white => exact stop
    | nil =>
      apply ends
      cases rest with
      | nil => rfl
      | cons x rest =>
        have feed : x = '\n' := stop x rfl
        have noFeed := settled.noSpace x rfl
        rw [feed] at noFeed
        cases noFeed

theorem Skips.append (h : Skips text rest) (settled : Settled rest) (ne : rest ≠ [])
    (other : List Char) : Skips (text ++ other) (rest ++ other) := by
  obtain ⟨white, rfl, exchange⟩ := h.exchange settled
  rw [List.append_assoc]
  exact exchange _ fun none => absurd none ne

theorem Skips.catch_up (h : Skips text a) (last : Skips text b) (settled : Settled b) :
    Skips a b := by
  induction h with
  | done => exact last
  | space isSpace _ ih =>
    cases last with
    | done =>
      rw [settled.noSpace _ rfl] at isSpace
      cases isSpace
    | space _ inner => exact ih inner
    | comment => cases isSpace
  | @comment body rest _ inLine stop _ ih =>
    generalize whole : '/' :: '/' :: (body ++ rest) = start at last
    cases last with
    | done =>
      rw [← whole] at settled
      exact absurd (List.prefix_append ['/', '/'] _) settled.noComment
    | space isSpace _ =>
      cases whole
      cases isSpace
    | comment inLine' stop' inner =>
      simp only [List.cons.injEq, true_and] at whole
      rw [← comment_unique inLine stop inLine' stop' whole] at inner
      exact ih inner

theorem Skips.exists_append (h : Skips text []) (other : List Char) :
    ∃ rest, Skips (text ++ other) rest ∧ rest <:+ other := by
  generalize none : ([] : List Char) = stop at h
  induction h with
  | done =>
    subst none
    exact ⟨other, .done other, List.suffix_refl other⟩
  | space isSpace _ ih =>
    obtain ⟨rest, skips, suffix⟩ := ih none
    exact ⟨rest, .space isSpace skips, suffix⟩
  | @comment body text _ inLine stop _ ih =>
    match text with
    | x :: text =>
      obtain ⟨rest, skips, suffix⟩ := ih none
      refine ⟨rest, ?_, suffix⟩
      simp only [List.cons_append, List.append_assoc]
      exact .comment inLine stop skips
    -- the comment takes in what comes up to the next line feed
    | [] =>
      refine ⟨other.dropWhile (· ≠ '\n'), ?_, List.dropWhile_suffix _⟩
      have comment : Skips ('/' :: '/' :: ((body ++ other.takeWhile (· ≠ '\n')) ++
          other.dropWhile (· ≠ '\n'))) (other.dropWhile (· ≠ '\n')) := by
        apply Skips.comment _ _ (.done _)
        . intro mem
          rcases List.mem_append.1 mem with mem | mem
          . exact inLine mem
          . have other := List.all_eq_true.1 List.all_takeWhile _ mem
            simp at other
        . intro x head
          have feed := List.head?_dropWhile_not (fun x => decide (x ≠ '\n')) other
          rw [head] at feed
          simpa using feed
      rw [List.append_assoc, List.takeWhile_append_dropWhile] at comment
      simpa using comment

end Layout

/-- What the text of a language consists of. The keyword of an event and its name are two pieces. -/
inductive Piece where
  | keyword (d : Direction)
  | name (s : String)
  | opening
  | closing
  | semicolon
  | bar
  | sign (s : Sign)
  deriving DecidableEq, Repr

namespace Piece

def text : Piece → String
  | .keyword d => d.word ++ ":"
  | .name s => s
  | .opening => "("
  | .closing => ")"
  | .semicolon => ";"
  | .bar => "|"
  | .sign s => s.text

structure Takes (p : Piece) (text rest : List Char) : Prop where
  text_eq : text = p.text.toList ++ rest
  isName : ∀ s, p = .name s → IsName s
  ends : ∀ s, p = .name s → NameEnds rest

end Piece

inductive Pieces : List Piece → List Char → Prop where
  | nil {text : List Char} : Skips text [] → Pieces [] text
  | cons {p : Piece} {ps : List Piece} {text mid rest : List Char} :
    Skips text mid → p.Takes mid rest → Pieces ps rest → Pieces (p :: ps) text

variable {p q : Piece} {ps qs : List Piece} {text rest rest' : List Char}

namespace Piece

def fixed : List Piece :=
  [.keyword .input, .keyword .output, .opening, .closing, .semicolon, .bar, .sign .star,
    .sign .plus, .sign .question]

theorem mem_fixed (h : ∀ s, p ≠ .name s) : p ∈ fixed := by
  cases p with
  | keyword d => cases d <;> decide
  | name s => exact absurd rfl (h s)
  | sign s => cases s <;> decide
  | _ => decide

theorem name_or_mem_fixed (p : Piece) : (∃ s, p = .name s) ∨ p ∈ fixed := by
  by_cases isName : ∃ s, p = .name s
  . exact .inl isName
  . exact .inr (mem_fixed fun s eq => isName ⟨s, eq⟩)

theorem ne_name_of_mem_fixed (mem : p ∈ fixed) (s : String) : p ≠ .name s := by
  rintro rfl
  simp [fixed] at mem

def initial : Piece → Char
  | .keyword .input => 'i'
  | .keyword .output => 'o'
  | .name _ => ' '
  | .opening => '('
  | .closing => ')'
  | .semicolon => ';'
  | .bar => '|'
  | .sign .star => '*'
  | .sign .plus => '+'
  | .sign .question => '?'

theorem exists_toList_eq_initial (mem : p ∈ fixed) :
    ∃ tail, p.text.toList = p.initial :: tail := by
  cases p with
  | keyword d => cases d <;> exact ⟨_, rfl⟩
  | name s => exact absurd rfl (ne_name_of_mem_fixed mem s)
  | sign s => cases s <;> exact ⟨_, rfl⟩
  | _ => exact ⟨_, rfl⟩

theorem initial_of_mem_fixed : ∀ p ∈ fixed,
    (Parser.isSpace p.initial = false ∧ p.initial ≠ '/' ∧ p.initial ≠ ':') ∧
      ∀ q ∈ fixed, p.initial = q.initial → p = q := by
  decide

theorem Takes.settled_append (h : p.Takes text rest) (other : List Char) :
    Settled (text ++ other) := by
  rw [h.text_eq, List.append_assoc]
  rcases p.name_or_mem_fixed with ⟨s, rfl⟩ | mem
  . exact (h.isName s rfl).settled
  . obtain ⟨tail, eq⟩ := exists_toList_eq_initial mem
    obtain ⟨⟨noSpace, ne, _⟩, _⟩ := initial_of_mem_fixed p mem
    rw [eq]
    exact settled_cons noSpace ne

theorem Takes.settled (h : p.Takes text rest) : Settled text := by
  have settled := h.settled_append []
  rwa [List.append_nil] at settled

theorem text_ne_nil (h : p.Takes text rest) : p.text.toList ≠ [] := by
  rcases p.name_or_mem_fixed with ⟨s, rfl⟩ | mem
  . exact (h.isName s rfl).ne_nil
  . obtain ⟨tail, eq⟩ := exists_toList_eq_initial mem
    rw [eq]
    exact List.cons_ne_nil _ tail

theorem Takes.length_lt (h : p.Takes text rest) : rest.length < text.length := by
  have := List.length_pos_iff.2 (text_ne_nil h)
  rw [h.text_eq, List.length_append]
  omega

theorem Takes.suffix (h : p.Takes text rest) : rest <:+ text := by
  rw [h.text_eq]
  exact List.suffix_append _ _

theorem Takes.ne_nil (h : p.Takes text rest) : text ≠ [] := by
  rintro rfl
  exact Nat.not_lt_zero _ h.length_lt

theorem takes_of_mem_fixed (mem : p ∈ fixed) (eq : text = p.text.toList ++ rest) :
    p.Takes text rest :=
  ⟨eq, fun s isName => absurd isName (ne_name_of_mem_fixed mem s),
    fun s isName => absurd isName (ne_name_of_mem_fixed mem s)⟩

theorem Takes.eq_of_mem_fixed (h : p.Takes text rest) (h' : q.Takes text rest')
    (mem : p ∈ fixed) (mem' : q ∈ fixed) : p = q := by
  obtain ⟨tail, eq⟩ := exists_toList_eq_initial mem
  obtain ⟨tail', eq'⟩ := exists_toList_eq_initial mem'
  have same := h.text_eq.symm.trans h'.text_eq
  rw [eq, eq'] at same
  exact (initial_of_mem_fixed p mem).2 q mem' (List.cons.inj same).1

theorem takeWhile_name {s : String} (h : (name s).Takes text rest) :
    text.takeWhile Parser.isNameChar = s.toList := by
  have eq : text = s.toList ++ rest := h.text_eq
  rw [eq, List.takeWhile_append_of_pos (List.all_eq_true.1 (h.isName s rfl).2)]
  match rest, h.ends s rfl with
  | [], _ => rw [List.takeWhile_nil, List.append_nil]
  | x :: rest, ends =>
    rw [List.takeWhile_cons, ends x rfl, if_neg Bool.false_ne_true, List.append_nil]

theorem name_unique {s s' : String} (h : (name s).Takes text rest)
    (h' : (name s').Takes text rest') : s = s' := by
  rw [← String.toList_inj, ← takeWhile_name h, takeWhile_name h']

theorem Takes.rest_unique (h : p.Takes text rest) (h' : p.Takes text rest') : rest = rest' :=
  List.append_cancel_left (h.text_eq.symm.trans h'.text_eq)

end Piece

theorem exists_head_of_name {s : String} (h : (Piece.name s).Takes text rest) :
    ∃ x tail, text = x :: tail ∧ Parser.isNameChar x = true := by
  have eq : text = s.toList ++ rest := h.text_eq
  have isName := h.isName s rfl
  match chars : s.toList with
  | [] => exact absurd chars isName.ne_nil
  | x :: tail =>
    rw [chars, List.cons_append] at eq
    refine ⟨x, tail ++ rest, eq, ?_⟩
    exact List.all_eq_true.1 isName.2 x (chars ▸ List.mem_cons_self)

theorem ne_colon_of_takes (h : p.Takes text rest) : text.head? ≠ some ':' := by
  intro head
  rcases p.name_or_mem_fixed with ⟨s, rfl⟩ | mem
  . obtain ⟨x, tail, rfl, isNameChar⟩ := exists_head_of_name h
    cases head
    exact absurd isNameChar (by decide)
  . obtain ⟨tail, eq⟩ := Piece.exists_toList_eq_initial mem
    rw [h.text_eq, eq] at head
    exact (Piece.initial_of_mem_fixed p mem).1.2.2 (Option.some.inj head)

theorem ne_colon_of_skips (h : Skips text rest) (ne : rest.head? ≠ some ':') :
    text.head? ≠ some ':' := by
  cases h with
  | done => exact ne
  | space isSpace _ =>
    intro head
    cases head
    cases isSpace
  | comment => simp

theorem not_keyword_and_name {d : Direction} {s : String}
    (h : (Piece.keyword d).Takes text rest) (h' : (Piece.name s).Takes text rest')
    (noColon : rest'.head? ≠ some ':') : False := by
  have word : text.takeWhile Parser.isNameChar = d.word.toList := by
    rw [h.text_eq]
    cases d <;> rfl
  have same : d.word.toList = s.toList := word.symm.trans (Piece.takeWhile_name h')
  have whole : text = d.word.toList ++ rest' := same ▸ h'.text_eq
  have colon : text = d.word.toList ++ ':' :: rest := by
    rw [h.text_eq]
    cases d <;> rfl
  have eq := List.append_cancel_left (whole.symm.trans colon)
  rw [eq] at noColon
  exact noColon rfl

theorem not_fixed_and_name {s : String} (h : p.Takes text rest) (mem : p ∈ Piece.fixed)
    (h' : (Piece.name s).Takes text rest') (noColon : rest'.head? ≠ some ':') : False := by
  have noName : ∀ p ∈ Piece.fixed, (∃ d, p = .keyword d) ∨
      Parser.isNameChar p.initial = false := by
    intro p mem
    cases p with
    | keyword d => exact .inl ⟨d, rfl⟩
    | name s => exact absurd rfl (Piece.ne_name_of_mem_fixed mem s)
    | sign s => cases s <;> exact .inr (by decide)
    | _ => exact .inr (by decide)
  rcases noName p mem with ⟨d, rfl⟩ | other
  . exact not_keyword_and_name h h' noColon
  . obtain ⟨x, tail, eq, isNameChar⟩ := exists_head_of_name h'
    obtain ⟨tail', chars⟩ := Piece.exists_toList_eq_initial mem
    rw [h.text_eq, chars] at eq
    rw [(List.cons.inj eq).1, isNameChar] at other
    cases other

theorem Piece.Takes.unique (h : p.Takes text rest) (h' : q.Takes text rest')
    (noColon : rest.head? ≠ some ':') (noColon' : rest'.head? ≠ some ':') : p = q := by
  rcases p.name_or_mem_fixed with ⟨s, rfl⟩ | mem
  . rcases q.name_or_mem_fixed with ⟨s', rfl⟩ | mem'
    . rw [Piece.name_unique h h']
    . exact (not_fixed_and_name h' mem' h noColon).elim
  . rcases q.name_or_mem_fixed with ⟨s', rfl⟩ | mem'
    . exact (not_fixed_and_name h mem h' noColon').elim
    . exact h.eq_of_mem_fixed h' mem mem'

namespace Pieces

theorem head?_ne_colon (h : Pieces ps text) : text.head? ≠ some ':' := by
  cases h with
  | nil skips => exact ne_colon_of_skips skips (by simp)
  | cons skips takes _ => exact ne_colon_of_skips skips (ne_colon_of_takes takes)

theorem unique (h : Pieces ps text) (h' : Pieces qs text) : ps = qs := by
  induction h generalizing qs with
  | nil skips =>
    cases h' with
    | nil => rfl
    | cons skips' takes _ =>
      have same := skips.unique settled_nil skips' takes.settled
      exact absurd same.symm takes.ne_nil
  | cons skips takes pieces ih =>
    cases h' with
    | nil skips' =>
      have same := skips.unique takes.settled skips' settled_nil
      exact absurd same takes.ne_nil
    | cons skips' takes' pieces' =>
      cases skips.unique takes.settled skips' takes'.settled
      cases takes.unique takes' pieces.head?_ne_colon pieces'.head?_ne_colon
      cases takes.rest_unique takes'
      rw [ih pieces']

end Pieces

end Interaction
