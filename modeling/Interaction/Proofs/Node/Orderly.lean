import Interaction.Node.ImageSource
import Interaction.Supervisor.Context
import Mathlib.Data.List.Induction

/-!
This module contains the transcripts in which an image source counts: its episodes and its images
follow each other without gaps, within the limits that are configured when they go out, and the
counts stay within 32 bits.
-/

namespace Interaction

namespace Transcript

variable {t before after : Transcript} {channel : String} {data : Json} {o : Occurrence} {i : Nat}

def sentOn (channel : String) (t : Transcript) : List Json :=
  t.filterMap fun
    | .sent other message => if other = channel then some message.data else none
    | _ => none

theorem sentOn_append (channel : String) (t u : Transcript) :
    sentOn channel (t ++ u) = sentOn channel t ++ sentOn channel u :=
  List.filterMap_append

theorem sentOn_cons_self (channel : String) (message : Message) (t : Transcript) :
    sentOn channel (.sent channel message :: t) = message.data :: sentOn channel t := by
  unfold sentOn
  simp

theorem sentOn_cons_of_ne (other : ∀ message, o ≠ .sent channel message) (t : Transcript) :
    sentOn channel (o :: t) = sentOn channel t := by
  cases o with
  | sent channel' message =>
    have ne : channel' ≠ channel := by
      rintro rfl
      exact other message rfl
    unfold sentOn
    simp [ne]
  | _ => rfl

theorem exists_of_getElem?_sentOn (found : (sentOn channel t)[i]? = some data) :
    ∃ before message after, t = before ++ .sent channel message :: after ∧
      message.data = data ∧ (sentOn channel before).length = i := by
  induction t generalizing i with
  | nil => cases found
  | cons o t ih =>
    by_cases here : ∃ message, o = .sent channel message
    . obtain ⟨message, rfl⟩ := here
      rw [sentOn_cons_self] at found
      cases i with
      | zero =>
        rw [List.getElem?_cons_zero, Option.some.injEq] at found
        exact ⟨[], message, t, rfl, found, rfl⟩
      | succ i =>
        rw [List.getElem?_cons_succ] at found
        obtain ⟨before, message', after, rfl, same, length⟩ := ih found
        refine ⟨_ :: before, message', after, rfl, same, ?_⟩
        rw [sentOn_cons_self, List.length_cons, length]
    . have other := not_exists.1 here
      rw [sentOn_cons_of_ne other] at found
      obtain ⟨before, message, after, rfl, same, length⟩ := ih found
      refine ⟨o :: before, message, after, rfl, same, ?_⟩
      rw [sentOn_cons_of_ne other, length]

theorem cases_of_snoc_eq {x : Occurrence} (h : t ++ [o] = before ++ x :: after) :
    (o = x ∧ t = before ∧ after = []) ∨ ∃ after', after = after' ++ [o] ∧
      t = before ++ x :: after' := by
  rcases List.eq_nil_or_concat after with rfl | ⟨after', last, rfl⟩
  . obtain ⟨rfl, same⟩ := List.append_inj' h rfl
    cases same
    exact .inl ⟨rfl, rfl, rfl⟩
  . rw [List.concat_eq_append, ← List.cons_append, ← List.append_assoc] at h
    obtain ⟨rfl, same⟩ := List.append_inj' h rfl
    cases same
    exact .inr ⟨after', List.concat_eq_append, rfl⟩

end Transcript

def Occurrence.isAside : Occurrence → Bool
  | .called .init => true
  | .called (.configured _ _) => true
  | .called .finish => true
  | .logged _ => true
  | _ => false

namespace ImageSource

def lastOf : Nat → Option Nat
  | 0 => none
  | e + 1 => some e

/--
What a transcript tells about an image source: its configuration, the number of episodes that have
been started, and the number of images that have gone out since.
-/
structure Tally where
  config : Config
  episodes : Nat
  images : Nat

namespace Tally

variable {u : Transcript} {o : Occurrence}

def after (k : Tally) : Occurrence → Tally
  | .called (.setConfig key value) =>
    match k.config.set key value with
    | .ok config => { k with config }
    | .error _ => k
  | .sent channel _ =>
    if channel = "episode_start" then { k with episodes := k.episodes + 1, images := 0 }
    else if channel = "image" then { k with images := k.images + 1 }
    else k
  | _ => k

def of (config : Config) (t : Transcript) : Tally := t.foldl after ⟨config, 0, 0⟩

def state (k : Tally) : State := ⟨k.config, lastOf k.episodes, k.images⟩

theorem of_append (config : Config) (t u : Transcript) :
    of config (t ++ u) = u.foldl after (of config t) :=
  List.foldl_append

theorem of_snoc (config : Config) (t : Transcript) (o : Occurrence) :
    of config (t ++ [o]) = (of config t).after o := by
  rw [of_append, List.foldl_cons, List.foldl_nil]

theorem after_of_isAside (aside : o.isAside = true) (k : Tally) : k.after o = k := by
  cases o with
  | called call => cases call <;> first | rfl | cases aside
  | sent => cases aside
  | refused => cases aside
  | logged => rfl

theorem episodes_after_setConfig (k : Tally) (key : String) (value : Json) :
    (k.after (.called (.setConfig key value))).episodes = k.episodes := by
  unfold after
  simp only
  split <;> rfl

theorem images_after_setConfig (k : Tally) (key : String) (value : Json) :
    (k.after (.called (.setConfig key value))).images = k.images := by
  unfold after
  simp only
  split <;> rfl

theorem state_after_setConfig (k : Tally) (key : String) (value : Json) :
    (k.after (.called (.setConfig key value))).state =
      (Node.imageSource.setConfig key value k.state).2 := by
  unfold Node.imageSource after state
  match set : k.config.set key value with
  | .ok config => simp only [set]
  | .error problem => simp only [set]

theorem nextEpisode_state (k : Tally) : k.state.nextEpisode = k.episodes := by
  obtain ⟨config, episodes, images⟩ := k
  cases episodes <;> rfl

theorem episodes_after (k : Tally) (o : Occurrence) :
    (k.after o).episodes = k.episodes + (Transcript.sentOn "episode_start" [o]).length := by
  cases o with
  | called call =>
    cases call with
    | setConfig key value => exact episodes_after_setConfig k key value
    | _ => rfl
  | sent channel message =>
    unfold after
    simp only
    split
    . next start =>
      subst start
      rw [Transcript.sentOn_cons_self]
      rfl
    . next other =>
      rw [Transcript.sentOn_cons_of_ne (by simp [other])]
      split <;> rfl
  | _ => rfl

theorem images_after (k : Tally) (none : Transcript.sentOn "episode_start" [o] = []) :
    (k.after o).images = k.images + (Transcript.sentOn "image" [o]).length := by
  cases o with
  | called call =>
    cases call with
    | setConfig key value => exact images_after_setConfig k key value
    | _ => rfl
  | sent channel message =>
    have other : channel ≠ "episode_start" := by
      rintro rfl
      rw [Transcript.sentOn_cons_self] at none
      cases none
    unfold after
    simp only [if_neg other]
    split
    . next image =>
      subst image
      rw [Transcript.sentOn_cons_self]
      rfl
    . next noImage =>
      rw [Transcript.sentOn_cons_of_ne (by simp [noImage])]
      rfl
  | _ => rfl

theorem episodes_of (config : Config) (t : Transcript) :
    (of config t).episodes = (t.sentOn "episode_start").length := by
  induction t using List.reverseRecOn with
  | nil => rfl
  | append_singleton t o ih =>
    rw [of_snoc, episodes_after, ih, Transcript.sentOn_append, List.length_append]

theorem images_of_append (config : Config) (t : Transcript)
    (none : u.sentOn "episode_start" = []) :
    (of config (t ++ u)).images = (of config t).images + (u.sentOn "image").length := by
  induction u using List.reverseRecOn with
  | nil =>
    rw [List.append_nil]
    rfl
  | append_singleton u o ih =>
    rw [Transcript.sentOn_append, List.append_eq_nil_iff] at none
    rw [← List.append_assoc, of_snoc, images_after _ none.2, ih none.1, Transcript.sentOn_append,
      List.length_append, Nat.add_assoc]

end Tally

def frameData (episode : Option Nat) (frame : Nat) (shape : Json) : Json :=
  .object [("episode", episode.elim .null .ofNat), ("frame", .ofNat frame), ("shape", shape)]

inductive Answer (k : Tally) : String → String → Json → Prop where
  | episode (more : k.episodes < k.config.numEpisodes.toNat) :
    Answer k "next_episode" "episode_start" (State.episodeData k.episodes)
  | noMoreEpisodes (none : k.config.numEpisodes.toNat ≤ k.episodes) :
    Answer k "next_episode" "no_more_episodes" .null
  | image (more : k.images < k.config.imagesPerEpisode.toNat) :
    Answer k "next_image" "image"
      (frameData (lastOf k.episodes) (k.images + 1)
        (.array [.ofNat k.config.height.toNat, .ofNat k.config.width.toNat]))
  | noMoreImages (none : k.config.imagesPerEpisode.toNat ≤ k.images) :
    Answer k "next_image" "no_more_images" .null

namespace Answer

variable {k : Tally} {asked channel : String} {data : Json}

theorem eq_episodeData (h : Answer k asked channel data) (episode : channel = "episode_start") :
    data = State.episodeData k.episodes := by
  cases h with
  | episode => rfl
  | noMoreEpisodes => exact absurd episode (by decide)
  | image => exact absurd episode (by decide)
  | noMoreImages => exact absurd episode (by decide)

theorem eq_frameData (h : Answer k asked channel data) (image : channel = "image") :
    ∃ shape, data = frameData (lastOf k.episodes) (k.images + 1) shape := by
  cases h with
  | episode => exact absurd image (by decide)
  | noMoreEpisodes => exact absurd image (by decide)
  | image => exact ⟨_, rfl⟩
  | noMoreImages => exact absurd image (by decide)

end Answer

/-- A transcript in which every request is followed by its answer, and nothing else goes out. -/
inductive Orderly (names : Renaming) (config : Config) : Transcript → Prop where
  | nil : Orderly names config []
  | aside {t : Transcript} {o : Occurrence} :
    Orderly names config t → o.isAside = true → Orderly names config (t ++ [o])
  | setConfig {t : Transcript} (key : String) (value : Json) :
    Orderly names config t → Orderly names config (t ++ [.called (.setConfig key value)])
  | answer {t : Transcript} {asked answer : String} {data : Json} (request : Json) :
    Orderly names config t → Answer (.of config t) asked answer data →
      Orderly names config (t ++ [.called (.receive asked request)] ++
        [.sent answer (.new (names.topic answer) data)])

namespace Orderly

variable {names : Renaming} {config : Config} {t before after : Transcript}
variable {channel : String} {data : Json} {m : Message}

theorem answer_of_sent (h : Orderly names config t)
    (place : t = before ++ .sent channel m :: after) :
    ∃ earlier asked request, before = earlier ++ [.called (.receive asked request)] ∧
      m = .new (names.topic channel) m.data ∧
      Answer (.of config earlier) asked channel m.data := by
  induction h generalizing after with
  | nil => simp at place
  | aside _ aside ih =>
    rcases Transcript.cases_of_snoc_eq place with ⟨rfl, _⟩ | ⟨after', _, here⟩
    . cases aside
    . exact ih here
  | setConfig key value _ ih =>
    rcases Transcript.cases_of_snoc_eq place with ⟨eq, _⟩ | ⟨after', _, here⟩
    . cases eq
    . exact ih here
  | answer request _ answer ih =>
    rcases Transcript.cases_of_snoc_eq place with ⟨eq, same, _⟩ | ⟨after', _, here⟩
    . cases eq
      exact ⟨_, _, request, same.symm, rfl, answer⟩
    . rcases Transcript.cases_of_snoc_eq here with ⟨eq, _⟩ | ⟨after'', _, here⟩
      . cases eq
      . exact ih here

theorem sent_of_receive (h : Orderly names config t)
    (place : t = before ++ .called (.receive channel data) :: after) :
    ∃ answer m rest, after = .sent answer m :: rest := by
  induction h generalizing after with
  | nil => simp at place
  | aside _ aside ih =>
    rcases Transcript.cases_of_snoc_eq place with ⟨rfl, _⟩ | ⟨after', eq, here⟩
    . cases aside
    . obtain ⟨answer, m, rest, rfl⟩ := ih here
      exact ⟨answer, m, _, eq⟩
  | setConfig key value _ ih =>
    rcases Transcript.cases_of_snoc_eq place with ⟨eq, _⟩ | ⟨after', eq, here⟩
    . cases eq
    . obtain ⟨answer, m, rest, rfl⟩ := ih here
      exact ⟨answer, m, _, eq⟩
  | answer request _ _ ih =>
    rcases Transcript.cases_of_snoc_eq place with ⟨eq, _⟩ | ⟨after', eq, here⟩
    . cases eq
    . rcases Transcript.cases_of_snoc_eq here with ⟨_, _, rfl⟩ | ⟨after'', eq', here⟩
      . exact ⟨_, _, _, eq⟩
      . obtain ⟨answer, m, rest, rfl⟩ := ih here
        rw [eq'] at eq
        exact ⟨answer, m, _, eq⟩

theorem tally_lt (h : Orderly names config t) :
    (Tally.of config t).episodes < UInt32.size ∧ (Tally.of config t).images < UInt32.size := by
  have zero : 0 < UInt32.size := by decide
  induction h with
  | nil => exact ⟨zero, zero⟩
  | aside _ aside ih =>
    rw [Tally.of_snoc, Tally.after_of_isAside aside]
    exact ih
  | setConfig key value _ ih =>
    rw [Tally.of_snoc, Tally.episodes_after_setConfig, Tally.images_after_setConfig]
    exact ih
  | @answer t asked channel data request _ answer ih =>
    rw [Tally.of_snoc, Tally.of_snoc]
    have same : (Tally.of config t).after (.called (.receive asked request)) = .of config t := rfl
    rw [same]
    cases answer with
    | episode more => exact ⟨Nat.lt_of_le_of_lt more (UInt32.toNat_lt _), zero⟩
    | noMoreEpisodes none => exact ih
    | image more => exact ⟨ih.1, Nat.lt_of_le_of_lt more (UInt32.toNat_lt _)⟩
    | noMoreImages none => exact ih

end Orderly

def Begins (t : Transcript) : Prop :=
  t = [] ∨ ∃ earlier m, t = earlier ++ [.sent "episode_start" m]

namespace Orderly

variable {names : Renaming} {config : Config} {t before during after : Transcript}

theorem sentOn_episode_start (h : Orderly names config t) :
    t.sentOn "episode_start" =
      (List.range (t.sentOn "episode_start").length).map State.episodeData := by
  apply List.ext_getElem?
  intro i
  match found : (t.sentOn "episode_start")[i]? with
  | none =>
    rw [List.getElem?_eq_none_iff] at found
    rw [eq_comm, List.getElem?_eq_none_iff, List.length_map, List.length_range]
    exact found
  | some data =>
    have inside : i < (t.sentOn "episode_start").length := (List.getElem?_eq_some_iff.1 found).1
    obtain ⟨before, m, after, place, rfl, number⟩ := Transcript.exists_of_getElem?_sentOn found
    obtain ⟨earlier, asked, request, rfl, _, answered⟩ := h.answer_of_sent place
    rw [Transcript.sentOn_append, Transcript.sentOn_cons_of_ne (by simp),
      List.length_append] at number
    have episodes : (Tally.of config earlier).episodes = i := (Tally.episodes_of _ _).trans number
    rw [List.getElem?_map, List.getElem?_range inside, Option.map_some, ← episodes,
      answered.eq_episodeData rfl]

theorem sentOn_image (h : Orderly names config t) (place : t = before ++ (during ++ after))
    (begins : Begins before) (same : during.sentOn "episode_start" = []) {i : Nat} {data : Json}
    (found : (during.sentOn "image")[i]? = some data) :
    ∃ shape, data =
      frameData (lastOf (before.sentOn "episode_start").length) (i + 1) shape := by
  have first : (Tally.of config before).images = 0 := by
    rcases begins with rfl | ⟨earlier, m, rfl⟩
    . rfl
    . rw [Tally.of_snoc]
      rfl
  obtain ⟨early, m, late, rfl, rfl, number⟩ := Transcript.exists_of_getElem?_sentOn found
  rw [List.append_assoc, ← List.append_assoc before] at place
  obtain ⟨earlier, asked, request, split, _, answered⟩ := h.answer_of_sent place
  rw [Transcript.sentOn_append, List.append_eq_nil_iff] at same
  -- the request before the image does not count
  have tally : Tally.of config earlier = .of config (before ++ early) := by
    rw [split, Tally.of_snoc]
    rfl
  have images : (Tally.of config earlier).images = i := by
    rw [tally, Tally.images_of_append config before same.1, first, number, Nat.zero_add]
  have episodes : (Tally.of config earlier).episodes = (before.sentOn "episode_start").length := by
    rw [tally, Tally.episodes_of, Transcript.sentOn_append, same.1, List.append_nil]
  rw [← images, ← episodes]
  exact answered.eq_frameData rfl

end Orderly

end ImageSource

end Interaction
