import Interaction.Node.Basic

/-!
This module contains a reference node that produces episodes of synthetic images when it is asked
to. Its configuration can be changed while it runs.
-/

namespace Interaction

namespace ImageSource

structure Config where
  height : UInt32
  width : UInt32
  imagesPerEpisode : UInt32
  numEpisodes : UInt32
  deriving DecidableEq, Repr

namespace Config

def default : Config := ⟨480, 640, 120, 10⟩

instance : Inhabited Config := ⟨default⟩

def members (c : Config) : List (String × Json) := [
  ("images_per_episode", .ofNat c.imagesPerEpisode.toNat),
  ("num_episodes", .ofNat c.numEpisodes.toNat),
  ("shape", .array [.ofNat c.height.toNat, .ofNat c.width.toNat])]

def toJson (c : Config) : Json := .object c.members

def readUInt32 : Json → Except Json.Cause UInt32
  | .number (.integer n) =>
    if 0 ≤ n ∧ n < UInt32.size then .ok (UInt32.ofNat n.toNat) else .error (.invalidInteger n "u32")
  | other => .error (.invalidType (.ofJson other) "u32")

def readShape : Json → Except Json.Cause (UInt32 × UInt32)
  | .array items => do
    let tooShort (length : Nat) := Json.Cause.invalidLength length "a tuple of size 2"
    match items with
    | [] => .error (tooShort 0)
    | first :: rest =>
      let height ← readUInt32 first
      match rest with
      | [] => .error (tooShort 1)
      | second :: others =>
        let width ← readUInt32 second
        if others.isEmpty then pure (height, width)
        else .error (.invalidLength items.length "fewer elements in array")
  | other => .error (.invalidType (.ofJson other) "a tuple of size 2")

structure Draft where
  shape : Option (UInt32 × UInt32)
  imagesPerEpisode : Option UInt32
  numEpisodes : Option UInt32

namespace Draft

def empty : Draft := ⟨none, none, none⟩

def readOnce {α : Type} (name : String) (read : Json → Except Json.Cause α) (value : Json) :
    Option α → Except Json.Cause (Option α)
  | some _ => .error (.duplicateField name)
  | none => some <$> read value

def readMember (d : Draft) : String × Json → Except Json.Cause Draft
  | (key, value) =>
    if key = "shape" then do
      let shape ← readOnce key readShape value d.shape
      pure { d with shape }
    else if key = "images_per_episode" then do
      let imagesPerEpisode ← readOnce key readUInt32 value d.imagesPerEpisode
      pure { d with imagesPerEpisode }
    else if key = "num_episodes" then do
      let numEpisodes ← readOnce key readUInt32 value d.numEpisodes
      pure { d with numEpisodes }
    else pure d

def required {α : Type} (name : String) : Option α → Except Json.Cause α
  | none => .error (.missingField name)
  | some a => .ok a

def finish (d : Draft) : Except Json.Cause Config := do
  let (height, width) ← required "shape" d.shape
  let imagesPerEpisode ← required "images_per_episode" d.imagesPerEpisode
  let numEpisodes ← required "num_episodes" d.numEpisodes
  pure { height, width, imagesPerEpisode, numEpisodes }

end Draft

def ofMembers (members : List (String × Json)) : Except Json.Cause Config := do
  let draft ← members.foldlM Draft.readMember .empty
  draft.finish

def replaceMember (key : String) (value : Json) :
    List (String × Json) → Option (List (String × Json))
  | [] => none
  | (k, v) :: rest =>
    if k = key then some ((k, value) :: rest) else ((k, v) :: ·) <$> replaceMember key value rest

/-- Sets a field: the configuration is read again with another value for the member. -/
def set (c : Config) (key : String) (value : Json) : Except ConfigProblem Config :=
  match replaceMember key value c.members with
  | none => .error .unknownKey
  | some members => (ofMembers members).mapError .illTyped

end Config

structure State where
  config : Config
  episode : Option Nat
  images : Nat
  deriving DecidableEq, Repr

namespace State

def new (config : Config) : State := ⟨config, none, 0⟩

def nextEpisode (s : State) : Nat :=
  match s.episode with
  | none => 0
  | some e => e + 1

def imageData (s : State) : Json :=
  .object [
    ("episode", s.episode.elim .null .ofNat),
    ("frame", .ofNat s.images),
    ("shape", .array [.ofNat s.config.height.toNat, .ofNat s.config.width.toNat])]

def episodeData (episode : Nat) : Json :=
  .object [("episode_name", .string ("episode" ++ toString episode))]

end State

def startEpisode : Callback State Unit := do
  let s ← get
  let next := s.nextEpisode
  if s.config.numEpisodes.toNat ≤ next then
    Callback.write "no_more_episodes" .null
  else
    set { s with episode := some next, images := 0 }
    Callback.write "episode_start" (State.episodeData next)

def nextImage : Callback State Unit := do
  let s ← get
  if s.config.imagesPerEpisode.toNat ≤ s.images then
    Callback.write "no_more_images" .null
  else
    let s := { s with images := s.images + 1 }
    set s
    Callback.write "image" s.imageData

end ImageSource

open ImageSource in
def Node.imageSource : Node State where
  name := "dummy_image_source"
  handlers := ["next_episode", "next_image"]
  init := modify fun s => { s with episode := none, images := 0 }
  receive channel _ :=
    if channel = "next_episode" then startEpisode
    else if channel = "next_image" then nextImage
    else throw (.other ("dummy_image_source cannot handle `" ++ channel ++ "`"))
  config s := some s.config.toJson
  setConfig key value s :=
    match s.config.set key value with
    | .ok config => (.ok (), { s with config })
    | .error problem => (.error (.badConfig key problem), s)
  configured key value :=
    Callback.log ("Config was updated: " ++ key ++ " = " ++ value.render)

end Interaction
