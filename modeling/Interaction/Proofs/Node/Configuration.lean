import Interaction.Node.ImageSource
import Interaction.Proofs.Table

/-!
This module contains what becomes of the image source's configuration when it is changed: the other
fields survive being written and read again, and a value that does not fit changes nothing.
-/

namespace Interaction

namespace ImageSource

namespace Config

/-- Whether a value is one of a field: a number of 32 bits, or two of them for the shape. -/
inductive Fits : String → Json → Prop where
  | imagesPerEpisode (n : UInt32) : Fits "images_per_episode" (.ofNat n.toNat)
  | numEpisodes (n : UInt32) : Fits "num_episodes" (.ofNat n.toNat)
  | shape (height width : UInt32) :
    Fits "shape" (.array [.ofNat height.toNat, .ofNat width.toNat])

variable {c c' : Config} {key key' k : String} {value value' v : Json} {n : UInt32}
variable {ms ms' : List (String × Json)}

theorem replaceMember_of_ne (ne : k ≠ key) :
    replaceMember key value ((k, v) :: ms) = ((k, v) :: ·) <$> replaceMember key value ms := by
  rw [replaceMember, if_neg ne]

theorem replaceMember_self :
    replaceMember key value ((key, v) :: ms) = some ((key, value) :: ms) := by
  rw [replaceMember, if_pos rfl]

theorem of_replaceMember_cons (h : replaceMember key value ((k, v) :: ms) = some ms') :
    k = key ∧ ms' = (k, value) :: ms ∨
      k ≠ key ∧ ∃ rest, replaceMember key value ms = some rest ∧ ms' = (k, v) :: rest := by
  by_cases same : k = key
  . subst same
    rw [replaceMember_self] at h
    cases h
    exact .inl ⟨rfl, rfl⟩
  . rw [replaceMember_of_ne same] at h
    obtain ⟨rest, replaced, rfl⟩ := Option.map_eq_some_iff.1 h
    exact .inr ⟨same, rest, replaced, rfl⟩

theorem names_replaceMember (h : replaceMember key value ms = some ms') :
    ms'.map (·.1) = ms.map (·.1) := by
  induction ms generalizing ms' with
  | nil => cases h
  | cons m ms ih =>
    rcases of_replaceMember_cons h with ⟨_, rfl⟩ | ⟨_, rest, replaced, rfl⟩
    . rfl
    . exact congrArg (m.1 :: ·) (ih replaced)

theorem lookup_replaceMember (h : replaceMember key value ms = some ms') (k : String) :
    ms'.lookup k = if k = key then some value else ms.lookup k := by
  induction ms generalizing ms' with
  | nil => cases h
  | cons m ms ih =>
    rcases of_replaceMember_cons h with ⟨rfl, rfl⟩ | ⟨other, rest, replaced, rfl⟩
    . rw [Table.lookup_cons_eq, Table.lookup_cons_eq]
      split <;> rfl
    . rw [Table.lookup_cons_eq, Table.lookup_cons_eq, ih replaced]
      by_cases found : k = m.1
      . subst found
        rw [if_pos rfl, if_neg other, if_pos rfl]
      . rw [if_neg found, if_neg found]

theorem bind_replaceMember_of_ne (ne : k ≠ key) (ms : Option (List (String × Json))) :
    (((k, v) :: ·) <$> ms).bind (replaceMember key value) =
      ((k, v) :: ·) <$> ms.bind (replaceMember key value) := by
  cases ms with
  | none => rfl
  | some ms => exact replaceMember_of_ne ne

theorem replaceMember_comm (ne : key ≠ key') (value value' : Json) (ms : List (String × Json)) :
    (replaceMember key value ms).bind (replaceMember key' value') =
      (replaceMember key' value' ms).bind (replaceMember key value) := by
  induction ms with
  | nil => rfl
  | cons m ms ih =>
    obtain ⟨k, v⟩ := m
    by_cases first : k = key
    . subst first
      rw [replaceMember_self, Option.bind_some, replaceMember_of_ne ne, replaceMember_of_ne ne]
      cases replaceMember key' value' ms with
      | none => rfl
      | some rest => exact replaceMember_self.symm
    . by_cases last : k = key'
      . subst last
        rw [replaceMember_self, Option.bind_some, replaceMember_of_ne first,
          replaceMember_of_ne first]
        cases replaceMember key value ms with
        | none => rfl
        | some rest => exact replaceMember_self
      . rw [replaceMember_of_ne first, replaceMember_of_ne last]
        rw [bind_replaceMember_of_ne last, bind_replaceMember_of_ne first, ih]

theorem bind_eq_ok_iff {α β ε : Type} {x : Except ε α} {f : α → Except ε β} {b : β} :
    (x >>= f) = .ok b ↔ ∃ a, x = .ok a ∧ f a = .ok b := by
  cases x with
  | error => exact iff_of_false nofun nofun
  | ok a => exact ⟨fun ok => ⟨a, rfl, ok⟩, fun ⟨_, eq, ok⟩ => Except.ok.inj eq ▸ ok⟩

theorem readUInt32_eq_ok_iff : readUInt32 value = .ok n ↔ value = .ofNat n.toNat := by
  constructor
  . intro ok
    match value with
    | .number (.integer i) =>
      rw [readUInt32] at ok
      split at ok
      . next fits =>
        cases ok
        have small : i.toNat < UInt32.size := by omega
        rw [UInt32.toNat_ofNat_of_lt' small]
        exact congrArg (fun i => Json.number (.integer i)) (Int.toNat_of_nonneg fits.1).symm
      . cases ok
    | .number (.binary _) => cases ok
    | .null => cases ok
    | .bool _ => cases ok
    | .string _ => cases ok
    | .array _ => cases ok
    | .object _ => cases ok
  . rintro rfl
    have small := n.toNat_lt_size
    have fits : 0 ≤ (n.toNat : Int) ∧ (n.toNat : Int) < UInt32.size := by omega
    rw [Json.ofNat, readUInt32, if_pos fits, Int.toNat_natCast, UInt32.ofNat_toNat]

theorem readShape_eq_ok_iff {height width : UInt32} : readShape value = .ok (height, width) ↔
    value = .array [.ofNat height.toNat, .ofNat width.toNat] := by
  constructor
  . intro ok
    match value with
    | .array [] => cases ok
    | .array [first] =>
      obtain ⟨_, _, ok⟩ := bind_eq_ok_iff.1 ok
      cases ok
    | .array (first :: second :: others) =>
      obtain ⟨h, first, ok⟩ := bind_eq_ok_iff.1 ok
      obtain ⟨w, second, ok⟩ := bind_eq_ok_iff.1 ok
      cases others with
      | cons => cases ok
      | nil =>
        cases ok
        rw [readUInt32_eq_ok_iff.1 first, readUInt32_eq_ok_iff.1 second]
    | .number _ => cases ok
    | .null => cases ok
    | .bool _ => cases ok
    | .string _ => cases ok
    | .object _ => cases ok
  . rintro rfl
    exact bind_eq_ok_iff.2 ⟨height, readUInt32_eq_ok_iff.2 rfl,
      bind_eq_ok_iff.2 ⟨width, readUInt32_eq_ok_iff.2 rfl, rfl⟩⟩

theorem ofMembers_eq (images episodes shape : Json) :
    ofMembers [("images_per_episode", images), ("num_episodes", episodes), ("shape", shape)] = (do
      let imagesPerEpisode ← readUInt32 images
      let numEpisodes ← readUInt32 episodes
      let shape ← readShape shape
      pure ⟨shape.1, shape.2, imagesPerEpisode, numEpisodes⟩) := by
  unfold ofMembers
  simp only [List.foldlM_cons, List.foldlM_nil, Draft.readMember, Draft.empty, Draft.readOnce,
    reduceIte, String.reduceEq, bind_pure, pure_bind, bind_assoc, map_eq_pure_bind]
  rfl

theorem ofMembers_eq_ok_iff (names : ms.map (·.1) = c.members.map (·.1)) :
    ofMembers ms = .ok c' ↔ ms = c'.members := by
  obtain ⟨images, episodes, shape, rfl⟩ : ∃ images episodes shape, ms =
      [("images_per_episode", images), ("num_episodes", episodes), ("shape", shape)] := by
    match ms with
    | [(_, images), (_, episodes), (_, shape)] =>
      cases names
      exact ⟨images, episodes, shape, rfl⟩
  rw [ofMembers_eq]
  constructor
  . intro ok
    obtain ⟨m, readImages, ok⟩ := bind_eq_ok_iff.1 ok
    obtain ⟨n, readEpisodes, ok⟩ := bind_eq_ok_iff.1 ok
    obtain ⟨⟨h, w⟩, readShape, ok⟩ := bind_eq_ok_iff.1 ok
    cases ok
    rw [readUInt32_eq_ok_iff.1 readImages, readUInt32_eq_ok_iff.1 readEpisodes,
      readShape_eq_ok_iff.1 readShape]
    rfl
  . intro eq
    cases eq
    rw [readUInt32_eq_ok_iff.2 rfl, readUInt32_eq_ok_iff.2 rfl, readShape_eq_ok_iff.2 rfl]
    rfl

theorem mapError_eq_ok_iff {α ε ε' : Type} {x : Except ε α} {f : ε → ε'} {a : α} :
    x.mapError f = .ok a ↔ x = .ok a := by
  cases x with
  | error => exact iff_of_false nofun nofun
  | ok =>
    change Except.ok _ = Except.ok _ ↔ _
    rw [Except.ok.injEq, Except.ok.injEq]

theorem set_eq_ok_iff :
    c.set key value = .ok c' ↔ replaceMember key value c.members = some c'.members := by
  unfold set
  cases replaced : replaceMember key value c.members with
  | none => exact iff_of_false nofun nofun
  | some ms =>
    rw [Option.some_inj, ← ofMembers_eq_ok_iff (names_replaceMember replaced)]
    exact mapError_eq_ok_iff

theorem nodup_names (c : Config) : (c.members.map (·.1)).Nodup := by
  change ["images_per_episode", "num_episodes", "shape"].Nodup
  decide

theorem fits_of_lookup (h : c.members.lookup key = some value) : Fits key value := by
  rw [Table.lookup_eq_some_iff_mem c.nodup_names] at h
  simp only [members, List.mem_cons, Prod.mk.injEq, List.not_mem_nil, or_false] at h
  rcases h with ⟨rfl, rfl⟩ | ⟨rfl, rfl⟩ | ⟨rfl, rfl⟩
  . exact .imagesPerEpisode _
  . exact .numEpisodes _
  . exact .shape _ _

theorem lookup_set (h : c.set key value = .ok c') (k : String) :
    c'.members.lookup k = if k = key then some value else c.members.lookup k :=
  lookup_replaceMember (set_eq_ok_iff.1 h) k

theorem exists_set_iff : (∃ c', c.set key value = .ok c') ↔ Fits key value := by
  constructor
  . rintro ⟨c', ok⟩
    apply fits_of_lookup (c := c')
    rw [lookup_set ok, if_pos rfl]
  . intro fits
    cases fits with
    | imagesPerEpisode n => exact ⟨{ c with imagesPerEpisode := n }, set_eq_ok_iff.2 rfl⟩
    | numEpisodes n => exact ⟨{ c with numEpisodes := n }, set_eq_ok_iff.2 rfl⟩
    | shape height width => exact ⟨{ c with height, width }, set_eq_ok_iff.2 rfl⟩

theorem set_comm {c₁ c₂ : Config} (ne : key ≠ key') (h : c.set key value = .ok c₁)
    (h' : c.set key' value' = .ok c₂) :
    ∃ c₃, c₁.set key' value' = .ok c₃ ∧ c₂.set key value = .ok c₃ := by
  obtain ⟨c₃, first⟩ : ∃ c₃, c₁.set key' value' = .ok c₃ :=
    exists_set_iff.2 (exists_set_iff.1 ⟨c₂, h'⟩)
  refine ⟨c₃, first, ?_⟩
  rw [set_eq_ok_iff] at *
  have comm := replaceMember_comm ne value value' c.members
  rw [h, h', Option.bind_some, Option.bind_some, first] at comm
  exact comm.symm

end Config

open Config

def State.shown (s : State) (key : String) : Option Json :=
  (Node.imageSource.config s).bind (Json.member? key)

def State.setAll (s : State) (calls : List (String × Json)) : State :=
  calls.foldl (fun s call => (Node.imageSource.setConfig call.1 call.2 s).2) s

def State.lastSet? (key : String) : State → List (String × Json) → Option Json
  | _, [] => none
  | s, (k, value) :: calls =>
    match Node.imageSource.setConfig k value s with
    | (.ok (), s) => (lastSet? key s calls).or (if key = k then some value else none)
    | (.error _, s) => lastSet? key s calls

variable {s s' : State} {key key' : String} {value value' : Json} {fault : Fault}

theorem setConfig_eq (key : String) (value : Json) (s : State) :
    Node.imageSource.setConfig key value s = match s.config.set key value with
      | .ok config => (.ok (), { s with config })
      | .error problem => (.error (.badConfig key problem), s) := rfl

theorem setConfig_eq_ok_iff : Node.imageSource.setConfig key value s = (.ok (), s') ↔
    ∃ config, s.config.set key value = .ok config ∧ s' = { s with config } := by
  rw [setConfig_eq]
  cases s.config.set key value with
  | error => exact iff_of_false nofun nofun
  | ok config =>
    constructor
    . intro ok
      cases ok
      exact ⟨_, rfl, rfl⟩
    . rintro ⟨_, same, rfl⟩
      cases same
      rfl

theorem of_setConfig_eq_error (h : Node.imageSource.setConfig key value s = (.error fault, s')) :
    s' = s ∧ ∃ problem, fault = .badConfig key problem := by
  rw [setConfig_eq] at h
  cases set : s.config.set key value <;> rw [set] at h <;> cases h
  exact ⟨rfl, _, rfl⟩

theorem shown_setConfig (h : Node.imageSource.setConfig key value s = (.ok (), s')) (k : String) :
    s'.shown k = if k = key then some value else s.shown k := by
  obtain ⟨config, set, rfl⟩ := setConfig_eq_ok_iff.1 h
  exact lookup_set set k

theorem shown_setAll (s : State) (calls : List (String × Json)) (key : String) :
    (s.setAll calls).shown key = (s.lastSet? key calls).or (s.shown key) := by
  induction calls generalizing s with
  | nil => rfl
  | cons call calls ih =>
    obtain ⟨k, value⟩ := call
    have step : s.setAll ((k, value) :: calls) =
      (Node.imageSource.setConfig k value s).2.setAll calls := rfl
    rw [step, ih, State.lastSet?]
    match attempt : Node.imageSource.setConfig k value s with
    | (.error _, s') => rw [(of_setConfig_eq_error attempt).1]
    | (.ok (), s') =>
      dsimp only
      rw [shown_setConfig attempt, Option.or_assoc]
      congr 1
      split <;> rfl

/-- A field is set to a value that fits it, and nothing else is changed; any other call changes
nothing at all. So each field shows what it was set to last, and the order of calls for different
fields makes no difference. -/
theorem setConfig_atomic (s : State) :
    (∀ key value, (∃ s', Node.imageSource.setConfig key value s = (.ok (), s')) ↔ Fits key value) ∧
    (∀ key value fault s', Node.imageSource.setConfig key value s = (.error fault, s') →
      s' = s ∧ ∃ problem, fault = .badConfig key problem) ∧
    (∀ key value s', Node.imageSource.setConfig key value s = (.ok (), s') →
      s'.shown key = some value ∧ (∀ other, other ≠ key → s'.shown other = s.shown other) ∧
      s'.episode = s.episode ∧ s'.images = s.images) ∧
    (∀ calls key, (s.setAll calls).shown key = (s.lastSet? key calls).or (s.shown key)) ∧
    ∀ key value key' value' s₁ s₂, key ≠ key' →
      Node.imageSource.setConfig key value s = (.ok (), s₁) →
      Node.imageSource.setConfig key' value' s = (.ok (), s₂) →
      ∃ s₃, Node.imageSource.setConfig key' value' s₁ = (.ok (), s₃) ∧
        Node.imageSource.setConfig key value s₂ = (.ok (), s₃) := by
  refine ⟨?_, ?_, ?_, shown_setAll s, ?_⟩
  . intro key value
    rw [← exists_set_iff (c := s.config)]
    simp only [setConfig_eq_ok_iff]
    exact ⟨fun ⟨_, config, ok, _⟩ => ⟨config, ok⟩, fun ⟨config, ok⟩ => ⟨_, config, ok, rfl⟩⟩
  . intro key value fault s'
    exact of_setConfig_eq_error
  . intro key value s' ok
    obtain ⟨config, _, rfl⟩ := setConfig_eq_ok_iff.1 ok
    refine ⟨?_, ?_, rfl, rfl⟩
    . rw [shown_setConfig ok, if_pos rfl]
    . intro other ne
      rw [shown_setConfig ok, if_neg ne]
  . intro key value key' value' s₁ s₂ ne first last
    obtain ⟨c₁, set₁, rfl⟩ := setConfig_eq_ok_iff.1 first
    obtain ⟨c₂, set₂, rfl⟩ := setConfig_eq_ok_iff.1 last
    obtain ⟨c₃, set₁₃, set₂₃⟩ := set_comm ne set₁ set₂
    exact ⟨{ s with config := c₃ }, setConfig_eq_ok_iff.2 ⟨c₃, set₁₃, rfl⟩,
      setConfig_eq_ok_iff.2 ⟨c₃, set₂₃, rfl⟩⟩

theorem setConfig_atomic_shape : ∃ s₁ s₂ s₃ : State,
    Node.imageSource.setConfig "shape" (.array [.ofNat 2, .ofNat 3]) (.new .default) =
      (.ok (), s₁) ∧
    s₁.shown "shape" = some (.array [.ofNat 2, .ofNat 3]) ∧
    s₁.shown "num_episodes" = some (.ofNat 10) ∧
    Node.imageSource.setConfig "num_episodes" (.ofNat 2) (.new .default) = (.ok (), s₂) ∧
    Node.imageSource.setConfig "num_episodes" (.ofNat 2) s₁ = (.ok (), s₃) ∧
    Node.imageSource.setConfig "shape" (.array [.ofNat 2, .ofNat 3]) s₂ = (.ok (), s₃) := by
  obtain ⟨succeeds, _, kept, _, comm⟩ := setConfig_atomic (.new .default)
  obtain ⟨s₁, shape⟩ := (succeeds "shape" (.array [.ofNat 2, .ofNat 3])).2 (.shape 2 3)
  obtain ⟨s₂, episodes⟩ := (succeeds "num_episodes" (.ofNat 2)).2 (.numEpisodes 2)
  have ne : "shape" ≠ "num_episodes" := by decide
  obtain ⟨s₃, first, last⟩ := comm _ _ _ _ _ _ ne shape episodes
  obtain ⟨shown, others, _⟩ := kept _ _ _ shape
  exact ⟨s₁, s₂, s₃, shape, shown, others _ ne.symm, episodes, first, last⟩

example : (State.new .default).lastSet? "num_episodes"
    [("num_episodes", .ofNat 2), ("num_episodes", .string "many")] = some (.ofNat 2) := by cbv

end ImageSource

end Interaction
