import Interaction.Language.Printer
import Interaction.Proofs.Language.Accepted
import Interaction.Proofs.Language.Normal

/-!
This module contains the proof that the text of a language is read as the language's normal form,
so that whatever is read from a text can be written and read again.
-/

namespace Interaction

def Token.enclose (needed : Bool) (ts : List Token) : List Token :=
  if needed then .opening :: (ts ++ [.closing]) else ts

def Joint.encloses : Joint → Language → Bool
  | .sequence => Language.enclosedInSequence
  | .choice => Language.enclosedInEither

namespace Language

mutual

def tokens : Language → List Token
  | .event e => [.event e]
  | .sequence parts => tokensOf .sequence parts
  | .either branches => tokensOf .choice branches
  | .optional body => Token.enclose body.enclosedInRepetition (tokens body) ++ [.sign .question]
  | .zeroOrMore body => Token.enclose body.enclosedInRepetition (tokens body) ++ [.sign .star]
  | .oneOrMore body => Token.enclose body.enclosedInRepetition (tokens body) ++ [.sign .plus]

def tokensOf (k : Joint) : List Language → List Token
  | [] => []
  | l :: rest => Token.enclose (k.encloses l) (tokens l) ++ tokensOfOthers k rest

def tokensOfOthers (k : Joint) : List Language → List Token
  | [] => []
  | l :: rest =>
    k.separator :: (Token.enclose (k.encloses l) (tokens l) ++ tokensOfOthers k rest)

end

def category : Language → Category
  | .event _ => .operand
  | .sequence _ => .joined .sequence
  | .either _ => .joined .choice
  | _ => .item

variable {l m : Language} {ts : List Token} {k : Joint}

theorem derives_sequence_of_item (h : Derives .item ts [l]) :
    Derives (.joined .sequence) ts [l] := by
  rw [← List.append_nil ts]
  exact .joined (k := .sequence) h (.none _)

theorem derives_choice_of_sequence (h : Derives (.joined .sequence) ts [l]) :
    Derives (.joined .choice) ts [l] := by
  rw [← List.append_nil ts]
  exact .joined (k := .choice) h (.none _)

theorem derives_choice (h : Derives m.category ts [l]) : Derives (.joined .choice) ts [l] := by
  cases m with
  | event => exact derives_choice_of_sequence (derives_sequence_of_item (.plain h))
  | sequence => exact derives_choice_of_sequence h
  | either => exact h
  | _ => exact derives_choice_of_sequence (derives_sequence_of_item h)

theorem derives_repeated (h : Derives m.category ts [l]) :
    Derives .operand (Token.enclose m.enclosedInRepetition ts) [l] := by
  cases m with
  | event => exact h
  | _ => exact .group (derives_choice h)

theorem derives_element (h : Derives m.category ts [l]) :
    Derives k.element (Token.enclose (k.encloses m) ts) [l] := by
  cases k with
  | sequence =>
    cases m with
    | event => exact .plain h
    | sequence => exact .plain (.group (derives_choice h))
    | either => exact .plain (.group (derives_choice h))
    | _ => exact h
  | choice =>
    cases m with
    | event => exact derives_sequence_of_item (.plain h)
    | sequence => exact h
    | either => exact derives_sequence_of_item (.plain (.group (derives_choice h)))
    | _ => exact derives_sequence_of_item h

mutual

theorem derives_tokens {l : Language} (h : l.Each Writable) :
    Derives l.category l.tokens [l.normalize] := by
  cases l with
  | event e => exact .event h
  | sequence parts => exact derives_tokensOf .sequence h.1 h.2
  | either branches => exact derives_tokensOf .choice h.1 h.2
  | optional body => exact .signed .question (derives_repeated (derives_tokens h.2))
  | zeroOrMore body => exact .signed .star (derives_repeated (derives_tokens h.2))
  | oneOrMore body => exact .signed .plus (derives_repeated (derives_tokens h.2))

theorem derives_tokensOf (k : Joint) {ls : List Language} (ne : ls ≠ []) (h : EachOf Writable ls) :
    Derives (.joined k) (tokensOf k ls) [k.join (normalizeAll ls)] := by
  cases ls with
  | nil => exact absurd rfl ne
  | cons l rest =>
    exact .joined (derives_element (derives_tokens h.1)) (derives_tokensOfOthers k h.2)

theorem derives_tokensOfOthers (k : Joint) {ls : List Language} (h : EachOf Writable ls) :
    Derives (.others k) (tokensOfOthers k ls) (normalizeAll ls) := by
  cases ls with
  | nil => exact .none k
  | cons l rest =>
    exact .another (derives_element (derives_tokens h.1)) (derives_tokensOfOthers k h.2)

end

def Spells (s : String) (ts : List Token) : Prop :=
  ∀ text rest, Skips text rest → Spelling ts (s.toList ++ text) rest

theorem spells_token (t : Token) : Spells t.text [t] := by
  intro text rest skips
  exact .cons skips (.nil rest)

theorem Spells.append {s s' : String} {ts us : List Token} (first : Spells s ts)
    (last : Spells s' us) : Spells (s ++ s') (ts ++ us) := by
  intro text rest skips
  rw [String.toList_append, List.append_assoc]
  exact (first _ _ (.done _)).append (last text rest skips)

theorem spells_token_space {s : String} (t : Token) (eq : s.toList = t.text.toList ++ [' ']) :
    Spells s [t] := by
  intro text rest skips
  rw [eq, List.append_assoc]
  exact .cons (.space rfl skips) (.nil rest)

theorem Spells.append_spaced {s s' spaced : String} {us : List Token} (first : Spells s ts)
    (last : Spells s' us) (eq : spaced.toList = ' ' :: s'.toList) :
    Spells (s ++ spaced) (ts ++ us) := by
  intro text rest skips
  rw [String.toList_append, eq, List.append_assoc]
  exact (first _ _ (.space rfl (.done _))).append (last text rest skips)

theorem Spells.separated {s s' between : String} {us : List Token} (t : Token)
    (eq : between.toList = ' ' :: (t.text.toList ++ [' '])) (first : Spells s ts)
    (last : Spells s' us) : Spells (s ++ between ++ s') (ts ++ t :: us) := by
  have sign : Spells (t.text ++ " ") [t] := spells_token_space t String.toList_append
  have spaced : between.toList = ' ' :: (t.text ++ " ").toList := by
    rw [eq, String.toList_append]
    rfl
  have whole := (first.append_spaced sign spaced).append last
  rw [List.append_assoc] at whole
  exact whole

theorem spells_enclose {s : String} (needed : Bool) (h : Spells s ts) :
    Spells (encloseIf needed s) (Token.enclose needed ts) := by
  cases needed with
  | false => exact h
  | true => exact ((spells_token .opening).append h).append (spells_token .closing)

mutual

theorem spells_render {l : Language} (h : l.Each Writable) : Spells l.render l.tokens := by
  cases l with
  | event e => exact spells_token (.event e)
  | sequence parts => exact spells_renderParts h.1 h.2
  | either branches => exact spells_renderBranches h.1 h.2
  | optional body =>
    unfold render tokens
    exact (spells_enclose _ (spells_render h.2)).append_spaced (spells_token (.sign .question)) rfl
  | zeroOrMore body =>
    unfold render tokens
    exact (spells_enclose _ (spells_render h.2)).append_spaced (spells_token (.sign .star)) rfl
  | oneOrMore body =>
    unfold render tokens
    exact (spells_enclose _ (spells_render h.2)).append_spaced (spells_token (.sign .plus)) rfl

theorem spells_renderParts {parts : List Language} (ne : parts ≠ []) (h : EachOf Writable parts) :
    Spells (renderParts parts) (tokensOf .sequence parts) := by
  match parts with
  | [] => exact absurd rfl ne
  | [l] =>
    unfold renderParts tokensOf tokensOfOthers
    rw [List.append_nil]
    exact spells_enclose _ (spells_render h.1)
  | l :: m :: rest =>
    have first := spells_enclose l.enclosedInSequence (spells_render h.1)
    have last := spells_renderParts (List.cons_ne_nil m rest) h.2
    unfold renderParts tokensOf tokensOfOthers
    exact .separated .semicolon rfl first last

theorem spells_renderBranches {branches : List Language} (ne : branches ≠ [])
    (h : EachOf Writable branches) :
    Spells (renderBranches branches) (tokensOf .choice branches) := by
  match branches with
  | [] => exact absurd rfl ne
  | [l] =>
    unfold renderBranches tokensOf tokensOfOthers
    rw [List.append_nil]
    exact spells_enclose _ (spells_render h.1)
  | l :: m :: rest =>
    have first := spells_enclose l.enclosedInEither (spells_render h.1)
    have last := spells_renderBranches (List.cons_ne_nil m rest) h.2
    unfold renderBranches tokensOf tokensOfOthers
    exact .separated .bar rfl first last

end

theorem each_tidy_of_derives {i : Category} {ls : List Language} (h : Derives i ts ls) :
    ∀ l ∈ ls, l.Each Tidy := by
  induction h with
  | event isName =>
    intro l mem
    rw [List.mem_singleton.1 mem]
    exact isName
  | group _ ih => exact ih
  | plain _ ih => exact ih
  | signed s _ ih =>
    intro l mem
    rw [List.mem_singleton.1 mem]
    have body := ih _ (List.mem_singleton_self _)
    cases s <;> exact ⟨True.intro, body⟩
  | @joined k ts us l ls _ _ ih ih' =>
    intro m mem
    rw [List.mem_singleton.1 mem]
    have first := ih l (List.mem_singleton_self l)
    -- a single element stands for itself, so that joints have at least two
    match ls with
    | [] => exact first
    | l' :: rest =>
      have all : EachOf Tidy (l :: l' :: rest) := ⟨first, eachOf_iff.2 ih'⟩
      cases k <;> exact ⟨by simp [Tidy], all⟩
  | none => simp
  | @another k ts us l ls _ _ ih ih' =>
    intro m mem
    rcases List.mem_cons.1 mem with rfl | mem
    . exact ih m (List.mem_singleton_self m)
    . exact ih' m mem

theorem each_tidy_of_parse {text : String} (h : parse text = .ok l) : l.Each Tidy := by
  obtain ⟨ts, mid, _, _, derives⟩ := parse_eq_ok_iff_derives.1 h
  exact each_tidy_of_derives derives l (List.mem_singleton_self l)

theorem parse_render_of_writable (h : l.Each Writable) : parse l.render = .ok l.normalize := by
  rw [parse_eq_ok_iff_derives]
  refine ⟨l.tokens, l.render.toList, .done _, ?_, derives_choice (derives_tokens h)⟩
  have spelling := spells_render h [] [] (.done _)
  rw [List.append_nil] at spelling
  exact spelling

theorem parse_render_of_tidy (h : l.Each Tidy) : parse l.render = .ok l := by
  rw [parse_render_of_writable (h.mono fun _ => Tidy.writable), normalize_of_tidy h]

/--
Languages that are read from texts have names at their events and join two or more languages. The
text of a language is read as its normal form, which has the same automaton; what is read from a
text is its own normal form.
-/
theorem parse_render :
    (∀ text l, parse text = .ok l → l.Each Tidy) ∧
    (∀ l : Language, l.Each Writable →
      parse l.render = .ok l.normalize ∧
        Automaton.compile l.normalize = Automaton.compile l) ∧
    ∀ text l, parse text = .ok l → parse l.render = .ok l := by
  refine ⟨?_, ?_, ?_⟩
  . intro text l h
    exact each_tidy_of_parse h
  . intro l h
    exact ⟨parse_render_of_writable h, Automaton.compile_normalize l⟩
  . intro text l h
    exact parse_render_of_tidy (each_tidy_of_parse h)

theorem parse_render_single :
    parse (render (.sequence [.either [input "a"], .zeroOrMore (.sequence [output "b"])])) =
      .ok (.sequence [input "a", .zeroOrMore (output "b")]) :=
  (parse_render.2.1 _ (by simp [Each, EachOf, Writable, input, output]; decide)).1

end Language

end Interaction
