import Interaction.Catalog.Basic
import Interaction.Proofs.Table

/-!
This module contains what a definition file does to a catalog: its protocols are added one by one up
to the first name that is not new, and those added before it stay.
-/

namespace Interaction

namespace Catalog

variable {c c' : Catalog} {name : String} {protocol : Protocol} {fault : Fault}
variable {ps : List (String × Protocol)}

theorem insert_eq_ok_iff : c.insert name protocol = .ok c' ↔
    c.protocols.contains name = false ∧ c' = ⟨c.protocols.insert name protocol⟩ := by
  unfold insert
  split
  . next taken => simp [taken]
  . next free =>
    rw [Bool.not_eq_true] at free
    simp [free, eq_comm]

theorem insert_eq_error_iff : c.insert name protocol = .error fault ↔
    c.protocols.contains name = true ∧ fault = .duplicateProtocol name := by
  unfold insert
  split
  . next taken => simp [taken, eq_comm]
  . next free => simp [free]

/-- Whether a catalog holds some new protocols, and otherwise what another one holds. -/
structure Extends (c : Catalog) (added : List (String × Protocol)) (c' : Catalog) : Prop where
  fresh : ∀ p ∈ added, c.protocols.contains p.1 = false
  nodup : (added.map (·.1)).Nodup
  get?_eq : ∀ key, c'.protocols.get? key = (added.lookup key).or (c.protocols.get? key)

theorem Extends.refl (c : Catalog) : c.Extends [] c := by
  constructor <;> simp

theorem contains_insert {key : String} :
    (c.protocols.insert name protocol).contains key = true ↔
      key = name ∨ c.protocols.contains key = true := by
  unfold Table.contains
  rw [Table.get?_insert]
  split <;> simp_all

theorem Extends.cons (free : c.protocols.contains name = false)
    (h : Extends ⟨c.protocols.insert name protocol⟩ ps c') :
    c.Extends ((name, protocol) :: ps) c' := by
  have others : ∀ p ∈ ps, p.1 ≠ name ∧ c.protocols.contains p.1 = false := by
    intro p mem
    have fresh := h.fresh p mem
    rw [← Bool.not_eq_true, contains_insert, not_or, Bool.not_eq_true] at fresh
    exact fresh
  constructor
  . intro p mem
    rcases List.mem_cons.1 mem with rfl | mem
    . exact free
    . exact (others p mem).2
  . rw [List.map_cons, List.nodup_cons]
    refine ⟨?_, h.nodup⟩
    intro mem
    obtain ⟨p, mem, same⟩ := List.mem_map.1 mem
    exact (others p mem).1 same
  . intro key
    have absent : ps.lookup name = none := by
      rw [List.lookup_eq_none_iff]
      intro p mem
      simpa using (others p mem).1.symm
    rw [h.get?_eq key, Table.get?_insert, Table.lookup_cons_eq]
    split
    . next same => rw [same, absent, Option.none_or, Option.some_or]
    . rfl

theorem extends_of_insertAll (h : c.insertAll ps = (.ok (), c')) : c.Extends ps c' := by
  induction ps generalizing c with
  | nil =>
    cases h
    exact Extends.refl _
  | cons p ps ih =>
    simp only [insertAll] at h
    split at h
    . cases h
    . next inserted =>
      obtain ⟨free, rfl⟩ := insert_eq_ok_iff.1 inserted
      exact (ih h).cons free

theorem exists_extends_of_insertAll (h : c.insertAll ps = (.error fault, c')) :
    ∃ before last rest, ps = before ++ last :: rest ∧ fault = .duplicateProtocol last.1 ∧
      c'.protocols.contains last.1 = true ∧ c.Extends before c' := by
  induction ps generalizing c with
  | nil => cases h
  | cons p ps ih =>
    simp only [insertAll] at h
    split at h
    . next refused =>
      cases h
      obtain ⟨taken, same⟩ := insert_eq_error_iff.1 refused
      exact ⟨[], p, ps, rfl, same, taken, Extends.refl _⟩
    . next inserted =>
      obtain ⟨free, rfl⟩ := insert_eq_ok_iff.1 inserted
      obtain ⟨before, last, rest, rfl, rest'⟩ := ih h
      exact ⟨p :: before, last, rest, rfl, rest'.1, rest'.2.1, rest'.2.2.cons free⟩

variable {content : Except Unreadable String} {r : Reporter}

theorem loadFile_of_error (h : (Definition.loadFile name content r).1 = .error fault) :
    (c.loadFile name content r).1 = .error fault ∧ (c.loadFile name content r).2.1 = c := by
  unfold loadFile
  split
  . next same =>
    rw [same] at h
    cases h
    exact ⟨rfl, rfl⟩
  . next same =>
    rw [same] at h
    cases h

theorem insertAll_of_loadFile (h : (Definition.loadFile name content r).1 = .ok ps)
    (failed : (c.loadFile name content r).1 = .error fault) :
    c.insertAll ps = (.error fault, (c.loadFile name content r).2.1) := by
  unfold loadFile at failed ⊢
  split at failed
  . next same =>
    rw [same] at h
    cases h
  . next same =>
    rw [same] at h
    cases h
    split at failed
    . cases failed
    . next inserted =>
      cases failed
      exact inserted

theorem loadFile_of_load {text : String} (loaded : (Definition.load name text r).1 = .ok ps)
    (inserted : c.insertAll ps = (.ok (), c')) :
    c.loadFile name (.ok text) r =
      (.ok (ps.map (·.1)), c', (Definition.load name text r).2) := by
  unfold loadFile Definition.loadFile
  simp only
  rw [← Prod.eta (Definition.load name text r), loaded]
  simp only [inserted]

/--
A file that cannot be loaded leaves a catalog as it was, unless its first protocol is new and a
later one is not. Whatever a failed file adds, are its protocols before the first name that is not
new.
-/
theorem loadFile_keeps_catalog_iff (c : Catalog) (name : String)
    (content : Except Unreadable String) (r : Reporter) (fault : Fault)
    (failed : (c.loadFile name content r).1 = .error fault) :
    ((∀ key, (c.loadFile name content r).2.1.protocols.get? key = c.protocols.get? key) ↔
      ∀ first rest, (Definition.loadFile name content r).1 = .ok (first :: rest) →
        c.protocols.contains first.1 = true) ∧
    ∀ ps, (Definition.loadFile name content r).1 = .ok ps →
      ∃ before last rest, ps = before ++ last :: rest ∧ fault = .duplicateProtocol last.1 ∧
        (c.loadFile name content r).2.1.protocols.contains last.1 = true ∧
        c.Extends before (c.loadFile name content r).2.1 := by
  have split : ∀ ps, (Definition.loadFile name content r).1 = .ok ps →
      ∃ before last rest, ps = before ++ last :: rest ∧ fault = .duplicateProtocol last.1 ∧
        (c.loadFile name content r).2.1.protocols.contains last.1 = true ∧
        c.Extends before (c.loadFile name content r).2.1 := by
    intro ps h
    exact exists_extends_of_insertAll (insertAll_of_loadFile h failed)
  refine ⟨?_, split⟩
  constructor
  . intro same first rest h
    obtain ⟨before, last, others, eq, _, taken, ext⟩ := split _ h
    cases before with
    | nil =>
      cases eq
      rw [Table.contains_iff] at taken ⊢
      simpa only [same] using taken
    | cons p before =>
      cases eq
      -- the first protocol would have been added
      have found := ext.get?_eq first.1
      rw [same, Table.lookup_cons_eq, if_pos rfl, Option.some_or] at found
      exact Table.contains_iff.2 ⟨_, found⟩
  . intro taken key
    match h : (Definition.loadFile name content r).1 with
    | .error fault' => rw [(loadFile_of_error h).2]
    | .ok ps =>
      obtain ⟨before, last, rest, eq, _, _, ext⟩ := split ps h
      cases before with
      | nil => rw [ext.get?_eq key, List.lookup_nil, Option.none_or]
      | cons p before =>
        rw [eq] at h
        have free := ext.fresh p List.mem_cons_self
        rw [taken p _ h] at free
        cases free

theorem loadFile_keeps_catalog_twice :
    let old := "protocol old \x7b in a: T; language \x7b in:a \x7d \x7d"
    let file := old ++ "protocol new \x7b in a: T; language \x7b in:a \x7d \x7d"
    let loaded := empty.loadFile "old" (.ok old) (.new false true)
    (loaded.2.1.loadFile "file" (.ok file) loaded.2.2).1 = .error (.duplicateProtocol "old") ∧
    ∀ key, (loaded.2.1.loadFile "file" (.ok file) loaded.2.2).2.1.protocols.get? key =
      loaded.2.1.protocols.get? key := by
  intro old file loaded
  have failed : (loaded.2.1.loadFile "file" (.ok file) loaded.2.2).1 =
      .error (.duplicateProtocol "old") := by
    decide +kernel
  refine ⟨failed, (loadFile_keeps_catalog_iff _ _ _ _ _ failed).1.2 ?_⟩
  intro first rest h
  have names : (Definition.loadFile "file" (.ok file) loaded.2.2).1.toOption.map
      (·.map (·.1)) = some ["old", "new"] := by
    decide +kernel
  rw [h] at names
  have same : first.1 = "old" := (List.cons.inj (Option.some.inj names)).1
  rw [same]
  decide +kernel

/-- A file is not loaded, but the first of its protocols is in the catalog afterwards. -/
theorem failed_loadFile_adds_protocol :
    let old := "protocol old \x7b in a: T; language \x7b in:a \x7d \x7d"
    let file := "protocol new \x7b in a: T; language \x7b in:a \x7d \x7d" ++ old
    let loaded := empty.loadFile "old" (.ok old) (.new false true)
    (loaded.2.1.loadFile "file" (.ok file) loaded.2.2).1 = .error (.duplicateProtocol "old") ∧
    loaded.2.1.names = ["old"] ∧
    (loaded.2.1.loadFile "file" (.ok file) loaded.2.2).2.1.names = ["new", "old"] := by
  decide +kernel

end Catalog

end Interaction
