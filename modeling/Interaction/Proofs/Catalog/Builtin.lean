import Interaction.Catalog.Builtin
import Interaction.Proofs.Catalog.Load
import Interaction.Proofs.Definition.Load

/-!
This module contains that the protocols of the reference pipeline are those of the file
`builtin.prot`.
-/

namespace Interaction

namespace Definition

variable {d : Definition} {ds : List Definition} {p : String × Protocol}
variable {ps : List (String × Protocol)} {cs : List Char} {css : List (List Char)}
variable {name text : String}

-- Descriptions are compared as characters, because the kernel takes quadratic time for a string.
def spells (d : Definition) (description : List Char) (p : String × Protocol) : Bool :=
  d.name = p.1 && d.descriptions.map (·.1) = [description] && d.channels = p.2.channels &&
    d.language?.map (·.language) = some p.2.language

def allSpell : List Definition → List (List Char) → List (String × Protocol) → Bool
  | [], [], [] => true
  | d :: ds, cs :: css, p :: ps => d.spells cs p && allSpell ds css ps
  | _, _, _ => false

def fileSpells (text : List Char) (css : List (List Char)) (ps : List (String × Protocol)) : Bool :=
  match parseFile (.ofText text) with
  | ⟨some (ds, _), _⟩ => allSpell ds css ps && (fileProblems [] ds).all (!·.isError)
  | ⟨none, _⟩ => false

theorem toProtocol_of_spells (described : p.2.description = String.ofList cs)
    (h : d.spells cs p = true) : d.toProtocol = .ok (some p) := by
  simp only [spells, Bool.and_eq_true, decide_eq_true_eq] at h
  obtain ⟨⟨⟨name, descriptions⟩, channels⟩, language⟩ := h
  have description : d.description = p.2.description := by
    unfold Definition.description
    rw [← List.getLast?_map, descriptions, described]
    rfl
  obtain ⟨text, found, same⟩ := Option.map_eq_some_iff.1 language
  unfold toProtocol
  rw [found]
  simp only
  rw [description, channels, same, Protocol.new_eq_self, name]
  rfl

theorem mapM_toProtocol_of_allSpell (described : ps.map (·.2.description) = css.map String.ofList)
    (h : allSpell ds css ps = true) : ds.mapM toProtocol = .ok (ps.map some) := by
  induction ds, css, ps using allSpell.induct with
  | case1 => rfl
  | case2 d ds cs css p ps ih =>
    rw [List.map_cons, List.map_cons, List.cons.injEq] at described
    simp only [allSpell, Bool.and_eq_true] at h
    rw [List.mapM_cons, toProtocol_of_spells described.1 h.1, ih described.2 h.2]
    rfl
  | case3 => simp_all [allSpell]

theorem outcome_of_fileSpells (described : ps.map (·.2.description) = css.map String.ofList)
    (h : fileSpells text.toList css ps = true) : outcome name text = .ok ps := by
  unfold fileSpells at h
  split at h
  . next ds c furthest found =>
    simp only [Bool.and_eq_true, List.all_eq_true, Bool.not_eq_true'] at h
    have read : parseFile.run text = .ok ds :=
      Parser.run_eq_ok_iff.2 ⟨c, congrArg Attempt.result found⟩
    unfold outcome
    rw [read]
    simp only
    rw [card_errorSpans_eq_zero_iff.2 h.2, mapM_toProtocol_of_allSpell described h.1]
    simp [Except.map]
  . cases h

end Definition

namespace Builtin

-- A literal is the string of its characters by definition; unification finds them.
theorem outcome_ofList (name : String) {cs : List Char} (css : List (List Char))
    (described : protocols.map (·.2.description) = css.map String.ofList)
    (h : Definition.fileSpells cs css protocols = true) :
    Definition.outcome name (String.ofList cs) = .ok protocols := by
  rw [← String.toList_ofList (l := cs)] at h
  exact Definition.outcome_of_fileSpells described h

set_option maxRecDepth 100000 in
theorem outcome_text (name : String) : Definition.outcome name text = .ok protocols :=
  outcome_ofList name [_, _, _, _, _, _, _, _] rfl (by decide +kernel)

theorem insertAll_protocols : Catalog.empty.insertAll protocols = (.ok (), .builtin) := by
  rfl

end Builtin

/-- The catalog of the reference pipeline is what the file `builtin.prot` adds to an empty one. -/
theorem Catalog.loadFile_text (name : String) {r : Reporter} (reachable : r.Reachable) :
    ∃ r', empty.loadFile name (.ok Builtin.text) r =
      (.ok (Builtin.protocols.map (·.1)), builtin, r') ∧ r'.errors = r.errors := by
  have loaded : (Definition.load name Builtin.text r).1 = .ok Builtin.protocols := by
    rw [Definition.load_eq_outcome reachable, Builtin.outcome_text]
  exact ⟨_, loadFile_of_load loaded Builtin.insertAll_protocols,
    Definition.errors_load_of_ok reachable loaded⟩

end Interaction
