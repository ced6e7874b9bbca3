import Interaction.Proofs.Renaming.Grammar
import Interaction.Proofs.Table

/-!
This module contains what comes of reading the text of a renaming: the entries that its pieces
spell, in any order, or what is wrong with the first piece that is no entry or repeats one.
-/

namespace Interaction

namespace Renaming

def entryOf? (es : List Entry) (direction : Direction) (name : String) : Option Entry :=
  es.find? (·.key = (direction, name))

def table (r : Renaming) : Direction → Table String
  | .input => r.inbound
  | .output => r.outbound

def Has (r : Renaming) (es : List Entry) : Prop :=
  ∀ direction name, (r.table direction).get? name = (entryOf? es direction name).map Entry.target

variable {piece bad : List Char} {pieces pieces' : List (List Char)} {e : Entry}
variable {es es' : List Entry} {r r' : Renaming} {problem : BadEntry} {fault : Fault}
variable {text text' : String}

theorem exists_entryOf?_iff {direction : Direction} {name : String} :
    (∃ e, entryOf? es direction name = some e) ↔ (direction, name) ∈ es.map Entry.key := by
  unfold entryOf?
  rw [← Option.isSome_iff_exists, List.find?_isSome, List.mem_map]
  simp

theorem Has.contains_iff (h : r.Has es) {direction : Direction} {name : String} :
    (r.table direction).contains name = true ↔ (direction, name) ∈ es.map Entry.key := by
  rw [Table.contains_iff, h, ← exists_entryOf?_iff]
  simp

theorem Has.unique (h : r.Has es) (h' : r'.Has es) : r = r' := by
  have same (direction : Direction) : r.table direction = r'.table direction := by
    apply Table.eq_of_get?
    intro name target
    rw [h, h']
  have inbound := same .input
  have outbound := same .output
  cases r
  cases r'
  rw [Renaming.mk.injEq]
  exact ⟨inbound, outbound⟩

theorem has_identity : identity.Has [] := by
  intro direction name
  cases direction <;> rfl

theorem add_eq (r : Renaming) (direction : Direction) (source target : String) :
    r.add direction source target =
      if (r.table direction).contains source then .error .repeated
      else .ok (match direction with
        | .input => { r with inbound := r.inbound.insert source target }
        | .output => { r with outbound := r.outbound.insert source target }) := by
  cases direction <;> rfl

theorem add_of_mem_keys (h : r.Has es) (used : e.key ∈ es.map Entry.key) :
    r.add e.direction e.source e.target = .error .repeated := by
  rw [add_eq, if_pos (h.contains_iff.2 used)]

theorem entryOf?_concat (es : List Entry) (e : Entry) (direction : Direction) (name : String) :
    entryOf? (es ++ [e]) direction name =
      (entryOf? es direction name).or (if e.key = (direction, name) then some e else none) := by
  unfold entryOf?
  rw [List.find?_append, List.find?_singleton]
  simp

theorem add_of_notMem_keys (h : r.Has es) (fresh : e.key ∉ es.map Entry.key) :
    ∃ r', r.add e.direction e.source e.target = .ok r' ∧ r'.Has (es ++ [e]) := by
  rw [add_eq, if_neg fun used => fresh (h.contains_iff.1 used)]
  refine ⟨_, rfl, ?_⟩
  intro direction name
  rw [entryOf?_concat]
  by_cases same : e.key = (direction, name)
  . rw [same, ← exists_entryOf?_iff, not_exists, ← Option.eq_none_iff_forall_ne_some] at fresh
    rw [fresh, if_pos same, Option.none_or]
    obtain ⟨d, s, t⟩ := e
    cases same
    cases d <;> exact Table.get?_insert.trans (if_pos rfl)
  . rw [if_neg same, Option.or_none, ← h]
    obtain ⟨d, s, t⟩ := e
    have other (eq : direction = d) : name ≠ s := by
      rintro rfl
      exact same (congrArg (·, name) eq.symm)
    cases d <;> cases direction <;>
      first | rfl | exact Table.get?_insert.trans (if_neg (other rfl))

def readPieces (r : Renaming) (pieces : List (List Char)) : Except Fault Renaming :=
  ((pieces.map Text.trim).filter (!·.isEmpty)).foldlM addEntry r

theorem parse_eq (text : String) :
    parse text = readPieces identity (Text.splitAt ',' text.toList) := rfl

theorem readPieces_of_blank (white : Blank piece) :
    readPieces r (piece :: pieces) = readPieces r pieces := by
  unfold readPieces
  rw [List.map_cons, List.filter_cons_of_neg]
  rw [Text.trim_of_blank white]
  decide

theorem readPieces_of_full (full : ¬Blank piece) :
    readPieces r (piece :: pieces) =
      (addEntry r (Text.trim piece)).bind fun r => readPieces r pieces := by
  unfold readPieces
  rw [List.map_cons, List.filter_cons_of_pos, List.foldlM_cons]
  . rfl
  . rw [← isEmpty_trim_iff] at full
    simpa using full

theorem addEntry_of_fresh (h : r.Has es) (spelled : e.SpelledBy piece)
    (fresh : e.key ∉ es.map Entry.key) :
    ∃ r', addEntry r (Text.trim piece) = .ok r' ∧ r'.Has (es ++ [e]) := by
  obtain ⟨r', added, has⟩ := add_of_notMem_keys h fresh
  refine ⟨r', ?_, has⟩
  unfold addEntry
  rw [parseEntry_of_spelled spelled]
  dsimp only
  rw [added]
  rfl

def faultOf (piece : List Char) (problem : BadEntry) : Fault :=
  .badRenaming (String.ofList (Text.trim piece)) problem

theorem addEntry_of_bad (h : r.Has es) (bad : Bad es piece problem) :
    addEntry r (Text.trim piece) = .error (faultOf piece problem) := by
  unfold addEntry faultOf
  rcases bad with malformed | ⟨rfl, e, spelled, used⟩
  . rw [parseEntry_of_malformed malformed]
  . rw [parseEntry_of_spelled spelled]
    dsimp only
    rw [add_of_mem_keys h used]
    rfl

theorem piece_cases (es : List Entry) (piece : List Char) :
    Blank piece ∨ (∃ e : Entry, e.SpelledBy piece ∧ e.key ∉ es.map Entry.key) ∨
      ∃ problem, Bad es piece problem := by
  by_cases white : Blank piece
  . exact .inl white
  . rcases spelled_or_malformed white with ⟨e, spelled⟩ | ⟨problem, malformed⟩
    . by_cases used : e.key ∈ es.map Entry.key
      . exact .inr (.inr ⟨_, .inr ⟨rfl, e, spelled, used⟩⟩)
      . exact .inr (.inl ⟨e, spelled, used⟩)
    . exact .inr (.inr ⟨problem, .inl malformed⟩)

/-- Whether a piece is the first bad one of pieces that follow entries. -/
def FirstBad (es : List Entry) (pieces : List (List Char)) (bad : List Char)
    (problem : BadEntry) : Prop :=
  ∃ before after es', pieces = before ++ bad :: after ∧ Lists before es' ∧
    ((es ++ es').map Entry.key).Nodup ∧ Bad (es ++ es') bad problem

theorem firstBad_cons_of_blank (white : Blank piece) :
    FirstBad es (piece :: pieces) bad problem ↔ FirstBad es pieces bad problem := by
  constructor
  . rintro ⟨before, after, es', eq, lists, nodup, isBad⟩
    cases before with
    | nil =>
      cases eq
      exact absurd white isBad.not_blank
    | cons first before =>
      cases eq
      exact ⟨before, after, es', rfl, (lists_cons_of_blank white).1 lists, nodup, isBad⟩
  . rintro ⟨before, after, es', rfl, lists, nodup, isBad⟩
    exact ⟨piece :: before, after, es', rfl, .blank white lists, nodup, isBad⟩

theorem firstBad_cons_of_fresh (spelled : e.SpelledBy piece) (fresh : e.key ∉ es.map Entry.key) :
    FirstBad es (piece :: pieces) bad problem ↔ FirstBad (es ++ [e]) pieces bad problem := by
  constructor
  . rintro ⟨before, after, es', eq, lists, nodup, isBad⟩
    cases before with
    | nil =>
      cases eq
      cases lists
      rw [List.append_nil] at isBad
      exact absurd (isBad.mem_keys spelled) fresh
    | cons first before =>
      cases eq
      obtain ⟨es', rfl, others⟩ := (lists_cons_of_spelled spelled).1 lists
      rw [List.append_cons] at nodup isBad
      exact ⟨before, after, es', rfl, others, nodup, isBad⟩
  . rintro ⟨before, after, es', rfl, lists, nodup, isBad⟩
    rw [← List.append_cons] at nodup isBad
    exact ⟨piece :: before, after, e :: es', rfl, .entry spelled lists, nodup, isBad⟩

theorem Bad.not_nodup_of_lists (here : Bad es piece problem) (lists : Lists (piece :: pieces) es') :
    ¬((es ++ es').map Entry.key).Nodup := by
  cases lists with
  | blank white => exact absurd white here.not_blank
  | entry spelled =>
    intro nodup
    rw [List.map_append, List.map_cons, List.nodup_append] at nodup
    exact nodup.2.2 _ (here.mem_keys spelled) _ List.mem_cons_self rfl

theorem firstBad_cons_of_bad {problem' : BadEntry} (nodup : (es.map Entry.key).Nodup)
    (here : Bad es piece problem) :
    FirstBad es (piece :: pieces) bad problem' ↔ bad = piece ∧ problem' = problem := by
  constructor
  . rintro ⟨before, after, es', eq, lists, nodup', isBad⟩
    cases before with
    | nil =>
      cases eq
      cases lists
      rw [List.append_nil] at isBad
      exact ⟨rfl, isBad.unique here⟩
    | cons first before =>
      cases eq
      exact absurd nodup' (here.not_nodup_of_lists lists)
  . rintro ⟨rfl, rfl⟩
    refine ⟨[], pieces, [], rfl, .nil, ?_, ?_⟩
    . rwa [List.append_nil]
    . rwa [List.append_nil]

theorem nodup_concat (nodup : (es.map Entry.key).Nodup) (fresh : e.key ∉ es.map Entry.key) :
    ((es ++ [e]).map Entry.key).Nodup := by
  rw [List.map_append, List.map_singleton, ← List.concat_eq_append]
  exact nodup.concat fresh

theorem readPieces_eq_ok_iff (h : r.Has es) (nodup : (es.map Entry.key).Nodup) :
    readPieces r pieces = .ok r' ↔ ∃ es', Lists pieces es' ∧
      ((es ++ es').map Entry.key).Nodup ∧ r'.Has (es ++ es') := by
  induction pieces generalizing r es with
  | nil =>
    constructor
    . intro eq
      cases eq
      refine ⟨[], .nil, ?_, ?_⟩
      . rwa [List.append_nil]
      . rwa [List.append_nil]
    . rintro ⟨_, ⟨⟩, _, has⟩
      rw [List.append_nil] at has
      rw [h.unique has]
      rfl
  | cons piece pieces ih =>
    rcases piece_cases es piece with white | ⟨e, spelled, fresh⟩ | ⟨problem, bad⟩
    . simp only [readPieces_of_blank white, ih h nodup, lists_cons_of_blank white]
    . obtain ⟨r₁, added, has⟩ := addEntry_of_fresh h spelled fresh
      rw [readPieces_of_full spelled.not_blank, added]
      refine (ih has (nodup_concat nodup fresh)).trans ?_
      constructor
      . rintro ⟨es', others, nodup, has⟩
        rw [← List.append_cons] at nodup has
        exact ⟨e :: es', .entry spelled others, nodup, has⟩
      . rintro ⟨_, lists, nodup, has⟩
        obtain ⟨es', rfl, others⟩ := (lists_cons_of_spelled spelled).1 lists
        rw [List.append_cons] at nodup has
        exact ⟨es', others, nodup, has⟩
    . rw [readPieces_of_full bad.not_blank, addEntry_of_bad h bad]
      refine iff_of_false nofun ?_
      rintro ⟨es', lists, nodup', _⟩
      exact bad.not_nodup_of_lists lists nodup'

theorem readPieces_eq_error_iff (h : r.Has es) (nodup : (es.map Entry.key).Nodup) :
    readPieces r pieces = .error fault ↔
      ∃ bad problem, FirstBad es pieces bad problem ∧ fault = faultOf bad problem := by
  induction pieces generalizing r es with
  | nil =>
    refine iff_of_false nofun ?_
    rintro ⟨bad, problem, ⟨before, after, es', eq, _⟩, _⟩
    simp at eq
  | cons piece pieces ih =>
    rcases piece_cases es piece with white | ⟨e, spelled, fresh⟩ | ⟨problem, bad⟩
    . simp only [readPieces_of_blank white, ih h nodup, firstBad_cons_of_blank white]
    . obtain ⟨r₁, added, has⟩ := addEntry_of_fresh h spelled fresh
      rw [readPieces_of_full spelled.not_blank, added]
      refine (ih has (nodup_concat nodup fresh)).trans ?_
      simp only [firstBad_cons_of_fresh spelled fresh]
    . rw [readPieces_of_full bad.not_blank, addEntry_of_bad h bad]
      simp only [firstBad_cons_of_bad nodup bad]
      constructor
      . intro eq
        cases eq
        exact ⟨_, _, ⟨rfl, rfl⟩, rfl⟩
      . rintro ⟨_, _, ⟨rfl, rfl⟩, rfl⟩
        rfl

theorem entryOf?_eq_some_iff (nodup : (es.map Entry.key).Nodup) {direction : Direction}
    {name : String} : entryOf? es direction name = some e ↔ e ∈ es ∧ e.key = (direction, name) := by
  constructor
  . intro found
    have key := List.find?_some found
    exact ⟨List.mem_of_find?_eq_some found, by simpa using key⟩
  . rintro ⟨mem, key⟩
    obtain ⟨e', found⟩ := exists_entryOf?_iff.2 (List.mem_map.2 ⟨e, mem, key⟩)
    have key' := List.find?_some found
    rw [found, List.inj_on_of_nodup_map nodup (List.mem_of_find?_eq_some found) mem]
    simpa [key] using key'

theorem Has.perm (h : r.Has es) (nodup : (es.map Entry.key).Nodup) (perm : es.Perm es') :
    r.Has es' := by
  have nodup' := (perm.map Entry.key).nodup_iff.1 nodup
  intro direction name
  rw [h]
  congr 1
  ext e
  rw [entryOf?_eq_some_iff nodup, entryOf?_eq_some_iff nodup', perm.mem_iff]

theorem parse_eq_ok_iff (h : Cut text pieces) : parse text = .ok r ↔
    ∃ es, Lists pieces es ∧ (es.map Entry.key).Nodup ∧ r.Has es := by
  rw [parse_eq, cut_iff.1 h]
  exact readPieces_eq_ok_iff has_identity List.nodup_nil

theorem exists_has (nodup : (es.map Entry.key).Nodup) : ∃ r : Renaming, r.Has es := by
  induction es using List.reverseRecOn with
  | nil => exact ⟨identity, has_identity⟩
  | append_singleton es e ih =>
    rw [List.map_append, List.map_singleton, List.nodup_append] at nodup
    obtain ⟨r, has⟩ := ih nodup.1
    have fresh : e.key ∉ es.map Entry.key :=
      fun used => nodup.2.2 _ used _ List.mem_cons_self rfl
    obtain ⟨r', _, has'⟩ := add_of_notMem_keys has fresh
    exact ⟨r', has'⟩

theorem Has.localName_eq (h : r.Has es) (name : String) :
    r.localName name = ((entryOf? es .input name).map Entry.target).getD name :=
  congrArg (Option.getD · name) (h .input name)

theorem Has.topic_eq (h : r.Has es) (name : String) :
    r.topic name = ((entryOf? es .output name).map Entry.target).getD name :=
  congrArg (Option.getD · name) (h .output name)

theorem parse_of_relaid (h : Cut text pieces) (h' : Cut text' pieces')
    (relaid : Relaid pieces pieces') (ok : parse text = .ok r) : parse text' = .ok r := by
  obtain ⟨es, lists, nodup, has⟩ := (parse_eq_ok_iff h).1 ok
  obtain ⟨es', perm, lists'⟩ := lists.relaid relaid
  exact (parse_eq_ok_iff h').2
    ⟨es', lists', (perm.map Entry.key).nodup_iff.1 nodup, has.perm nodup perm⟩

/-- A text is read if its pieces spell entries for different names, which the renaming then has, and
it is the same for all ways to lay them out. Otherwise the first bad piece is reported. -/
theorem parse_exact (text : String) : ∃ pieces, Cut text pieces ∧
    ((∃ r, parse text = .ok r) ↔ ∃ es, Lists pieces es ∧ (es.map Entry.key).Nodup) ∧
    (∀ r, parse text = .ok r →
      (∃ es, Lists pieces es ∧ (es.map Entry.key).Nodup ∧ ∀ name,
        r.localName name = ((entryOf? es .input name).map Entry.target).getD name ∧
        r.topic name = ((entryOf? es .output name).map Entry.target).getD name) ∧
      ∀ text' pieces', Cut text' pieces' → Relaid pieces pieces' → parse text' = .ok r) ∧
    ∀ fault, parse text = .error fault ↔
      ∃ bad problem, FirstBad [] pieces bad problem ∧ fault = faultOf bad problem := by
  have cut : Cut text (Text.splitAt ',' text.toList) := cut_iff.2 rfl
  refine ⟨_, cut, ?_, ?_, ?_⟩
  . constructor
    . rintro ⟨r, ok⟩
      obtain ⟨es, lists, nodup, _⟩ := (parse_eq_ok_iff cut).1 ok
      exact ⟨es, lists, nodup⟩
    . rintro ⟨es, lists, nodup⟩
      obtain ⟨r, has⟩ := exists_has nodup
      exact ⟨r, (parse_eq_ok_iff cut).2 ⟨es, lists, nodup, has⟩⟩
  . intro r ok
    obtain ⟨es, lists, nodup, has⟩ := (parse_eq_ok_iff cut).1 ok
    refine ⟨⟨es, lists, nodup, fun name => ⟨has.localName_eq name, has.topic_eq name⟩⟩, ?_⟩
    intro text' pieces' cut' relaid
    exact parse_of_relaid cut cut' relaid ok
  . intro fault
    exact readPieces_eq_error_iff has_identity List.nodup_nil

theorem parse_exact_image : ∃ r, parse "in:camera:image,out:image:filtered" = .ok r ∧
    parse " , out:image : filtered,in:camera:image" = .ok r ∧ r.localName "camera" = "image" := by
  obtain ⟨pieces, cut, _, accepted, _⟩ := parse_exact "in:camera:image,out:image:filtered"
  obtain rfl := cut_iff.1 cut
  have ok : parse "in:camera:image,out:image:filtered" =
      .ok ⟨.ofList [("camera", "image")], .ofList [("image", "filtered")]⟩ := rfl
  refine ⟨_, ok, (accepted _ ok).2 _ [[' '], " out:image : filtered".toList,
    "in:camera:image".toList] (cut_iff.2 rfl) ?_, rfl⟩
  have pieces : Text.splitAt ',' "in:camera:image,out:image:filtered".toList =
      ["in:camera:image".toList, "out:image:filtered".toList] := rfl
  have parts : Parts "out:image:filtered".toList ['o', 'u', 't'] "image".toList "filtered".toList :=
    ⟨rfl, by decide, by decide, by decide⟩
  have parts' : Parts " out:image : filtered".toList [' ', 'o', 'u', 't'] "image ".toList
      " filtered".toList := ⟨rfl, by decide, by decide, by decide⟩
  have space : Blank [' '] := by
    intro c mem
    rw [List.mem_singleton.1 mem]
    rfl
  have none : Blank [] := nofun
  rw [pieces]
  exact .trans (.perm (.swap _ _ [])) (.trans (.padded _ parts parts' ⟨[' '], [], space, none, rfl⟩
    ⟨[], [' '], none, space, rfl⟩ ⟨[' '], [], space, none, rfl⟩) (.blank _ space))

end Renaming

end Interaction
