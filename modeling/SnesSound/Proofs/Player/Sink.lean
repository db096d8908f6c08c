import Mathlib.Data.List.Forall2
import SnesSound.Player
import SnesSound.Player.Recording
import SnesSound.Proofs.Player.Loop
import SnesSound.Proofs.Snapshot.Encode

/-!
# What the player writes

The player opens a sink, which is standard output or a WAV file, loads its inputs one after the other and writes what
is heard of them into the sink. The log is kept apart from the sink.

Main statement: if the sink can be opened and all inputs can be loaded, the player ends without a failure, and the sink
gets what is heard of the inputs, one behind the other, each of which is what a single run of its session returns, or
the beginning of that if there is a limit of cycles (`play_inputs`).
-/

namespace SnesSound.Player

variable {o : Options} {r : Recording} {d : Directory} {input : String} {s : Session}

/-! ## Sessions -/

/-- An input can be loaded into a session. -/
def Loads (o : Options) (d : Directory) (input : String) (s : Session) : Prop :=
  ∃ bytes, d.read input = .ok bytes ∧ load o input bytes = .ok s

/-- Frames to play of a session: 32000 for each whole second and 32 for each millisecond. -/
def framesOf (o : Options) (s : Session) : Nat :=
  frameRate * (playTime o s / 1000) + 32 * (playTime o s % 1000)

theorem framesIn_playTime (o : Options) (s : Session) : framesIn (playTime o s) = framesOf o s := by
  simp only [framesIn, framesOf, frameRate]
  omega

/-- A loaded session is one that has just been loaded, but for its mask. Its input has the format that is asked for. -/
theorem load_eq_ok_iff {bytes : ByteArray} : load o input bytes = .ok s ↔
    (∀ format ∈ o.format, Format.detect? bytes = some format) ∧
      ∃ t, Session.ofSnapshot bytes { clearEcho := !o.keepEcho } = .ok t ∧ t.mute (o.mask.getD 0) = s := by
  unfold load
  cases Session.ofSnapshot bytes { clearEcho := !o.keepEcho } with
  | error e =>
    cases o.format with
    | none => simp [throw, throwThe, MonadExceptOf.throw]
    | some format =>
      by_cases hformat : Format.detect? bytes = some format <;>
        simp [hformat, throw, throwThe, MonadExceptOf.throw, bind, Except.bind]
  | ok t =>
    cases o.format with
    | none => simp [pure, Except.pure]
    | some format =>
      by_cases hformat : Format.detect? bytes = some format <;>
        simp [hformat, throw, throwThe, MonadExceptOf.throw, bind, Except.bind, pure, Except.pure]

/-- Nothing of a loaded session has been played yet. -/
theorem Loads.start (h : Loads o d input s) : s.OnTime ∧ s.owed = 0 ∧ s.totalCycles = 0 := by
  obtain ⟨bytes, -, hload⟩ := h
  obtain ⟨-, t, ht, rfl⟩ := load_eq_ok_iff.mp hload
  obtain ⟨htime, howed, hcycles, -⟩ := (Session.Fresh.loaded ht).start
  exact ⟨⟨htime.owed, htime.machine⟩, howed, hcycles⟩

/-! ## One input -/

/-- What is heard of a session, by whatever calls. -/
def Heard (o : Options) (s : Session) (audio : ByteArray) : Prop :=
  ∃ calls, Playback.Plays o.cycles (framesOf o s) s calls audio

/-- The log is kept apart. -/
theorem report_services (o : Options) (entries : List LogEntry) (r : Recording) :
    ∃ log, report Recording.services o entries r = ((), { r with log }) := by
  unfold report
  induction entries.filter fun e => e.level.verbosity ≤ o.verbosity generalizing r with
  | nil => exact ⟨r.log, rfl⟩
  | cons e entries ih => exact ih { r with log := r.log.push e }

/-- Playing an input reads it and leaves everything but the log alone. -/
theorem playInput_services (h : Loads o r.directory input s) :
    ∃ audio log, playInput Recording.services o input r = (.ok audio, { r with log }) ∧ Heard o s audio := by
  obtain ⟨hs, h0, hc⟩ := h.start
  obtain ⟨bytes, hread, hload⟩ := h
  let entries := loadEntries s bytes.size ++ [announcement input s,
    ⟨.debug, .player, toString (framesOf o s) ++ " frames (" ++ Duration.render (playTime o s) ++ ") to play"⟩]
  let p := Playback.extend o.cycles (framesOf o s) s { log := entries.toArray }
  have hplay : Playback.ofInput o input bytes = .ok p := by
    simp only [Playback.ofInput, hload, framesIn_playTime, bind, Except.bind]
    rfl
  obtain ⟨log, hlog⟩ := report_services o p.log.toList r
  refine ⟨p.audio, log, ?_, Playback.exists_plays hs h0 hc o.cycles (framesOf o s) entries.toArray⟩
  have hservice : Recording.services.read input r = (.ok bytes, r) := congrArg (·, r) hread
  unfold playInput
  simp only [bind, StateT.bind, hservice, hplay, hlog]
  rfl

/-! ## All inputs -/

/-- Audio of inputs, one behind the other. -/
def concat (audios : List ByteArray) : ByteArray := audios.foldr (· ++ ·) .empty

/-- Audio is gathered for a file, or it goes to standard output at once. -/
theorem playInputs_services {inputs : List String} {sessions : List Session}
    (h : List.Forall₂ (Loads o r.directory) inputs sessions) (gathered : ByteArray) :
    ∃ audios log, List.Forall₂ (Heard o) sessions audios ∧
      playInputs Recording.services o inputs gathered r =
        if o.output.isSome then ((gathered ++ concat audios, none), { r with log })
        else ((gathered, none), { r with log, output := r.output ++ concat audios }) := by
  generalize hd : r.directory = d at h
  induction h generalizing r gathered with
  | nil =>
    subst hd
    refine ⟨[], r.log, .nil, ?_⟩
    change ((gathered, none), r) = if o.output.isSome then ((gathered ++ .empty, none), r)
      else ((gathered, none), { r with output := r.output ++ .empty })
    rw [ByteArray.append_empty, ByteArray.append_empty, ite_self]
  | @cons input s inputs sessions hinput _ ih =>
    subst hd
    obtain ⟨audio, log, hplay, hheard⟩ := playInput_services hinput
    by_cases hfile : o.output.isSome
    · obtain ⟨audios, log', haudios, hrest⟩ := ih (r := { r with log }) (gathered ++ audio) rfl
      refine ⟨audio :: audios, log', .cons hheard haudios, ?_⟩
      rw [if_pos hfile] at hrest ⊢
      simp only [playInputs, bind, StateT.bind, hplay, if_pos hfile]
      rw [hrest, ByteArray.append_assoc]
      rfl
    · obtain ⟨audios, log', haudios, hrest⟩ :=
        ih (r := { r with log, output := r.output ++ audio }) gathered rfl
      refine ⟨audio :: audios, log', .cons hheard haudios, ?_⟩
      rw [if_neg hfile] at hrest ⊢
      simp only [playInputs, bind, StateT.bind, hplay, if_neg hfile]
      refine hrest.trans ?_
      rw [ByteArray.append_assoc]
      rfl

/-- A sink can be opened: there is standard output, and a file has to be created. Inputs are looked for in the directory
after that. -/
inductive Opens (o : Options) (r : Recording) : Directory → Prop
  | output (h : o.output = none) : Opens o r r.directory
  | file {path : String} {d : Directory} (h : o.output = some path) (hd : r.directory.create path = .ok d) : Opens o r d

/-- A sink gets audio: standard output gets it behind what is there, a file gets it as its samples. -/
def Gets (o : Options) (d : Directory) (before after : Recording) (audio : ByteArray) : Prop :=
  match o.output with
  | none => after.output = before.output ++ audio
  | some path => ∃ p, d.place path = .ok p ∧ after.directory = d.insert p (Wav.encode audio)

theorem pure_recording {α : Type} (a : α) (r : Recording) : (pure a : StateM Recording α) r = (a, r) := rfl

theorem create_services {path : String} (h : r.directory.create path = .ok d) :
    Recording.services.create path r = (.ok (), { r with directory := d }) := by
  change Recording.create path r = _
  simp only [Recording.create, h]

theorem fill_services {path : String} {p : Path} (h : r.directory.place path = .ok p) (bytes : ByteArray) :
    Recording.services.fill path bytes r = ((), { r with directory := r.directory.insert p bytes }) := by
  change ((), Recording.fill path bytes r) = _
  simp only [Recording.fill, h]

/-- If the sink can be opened and all inputs can be loaded, the player ends without a failure, and the sink gets what is
heard of the inputs, one behind the other. -/
theorem play_inputs {sessions : List Session} (hshuffle : o.shuffle = false) (hopen : Opens o r d)
    (hload : List.Forall₂ (Loads o d) o.inputs sessions) :
    ∃ audios, List.Forall₂ (Heard o) sessions audios ∧ (play Recording.services o r).1 = none ∧
      Gets o d r (play Recording.services o r).2 (concat audios) := by
  cases hopen with
  | output h =>
    obtain ⟨audios, log, haudios, hplay⟩ := playInputs_services hload .empty
    rw [if_neg (by simp [h])] at hplay
    have hrun : play Recording.services o r = (none, { r with log, output := r.output ++ concat audios }) := by
      simp only [play, hshuffle, h, bind, StateT.bind, pure_recording, Bool.false_eq_true, if_false, hplay]
    refine ⟨audios, haudios, ?_⟩
    simp only [hrun, Gets, h, true_and]
  | @file path d h hd =>
    obtain ⟨audios, log, haudios, hplay⟩ := playInputs_services (r := { r with directory := d }) hload .empty
    rw [if_pos (by simp [h]), ByteArray.empty_append] at hplay
    obtain ⟨p, hp, rfl⟩ := Directory.create_eq_ok_iff.mp hd
    have hcreate := create_services hd
    have hfill := fill_services (r := { r with directory := r.directory.insert p .empty, log })
      (Directory.place_insert .empty hp) (Wav.encode (concat audios))
    have hrun : play Recording.services o r =
        (none, { r with
          directory := (r.directory.insert p .empty).insert p (Wav.encode (concat audios))
          log }) := by
      simp only [play, hshuffle, h, bind, StateT.bind, pure_recording, Bool.false_eq_true, if_false, hcreate, hplay,
        hfill]
    refine ⟨audios, haudios, ?_⟩
    simp only [hrun, Gets, h, true_and]
    exact ⟨p, Directory.place_insert .empty hp, rfl⟩

/-- A directory with a file `a` in it, which holds a snapshot. -/
def shelf : Directory where
  files := [(Directory.working ++ ["a"], SpcFile.encode {} .zero .zero)]

theorem read_shelf : shelf.read "a" = .ok (SpcFile.encode {} .zero .zero) := by
  have hparts : Directory.parts "a" = ["a"] := by
    rw [Directory.parts_eq]
    rfl
  have hwalk : shelf.walk Directory.working ["a"] = .ok (Directory.working ++ ["a"]) := by
    have hthere : shelf.hasDirectory Directory.working := rfl
    have hname : ¬("a" = "" ∨ "a" = ".") := by decide
    have hup : ¬"a" = ".." := by decide
    have hlong : ¬Directory.maxName < "a".utf8ByteSize := by decide
    rw [Directory.walk, if_pos hthere, if_neg hname, if_neg hup, if_neg hlong]
    rfl
  have hfollow : shelf.follow "a" ["a"] = .ok (Directory.working ++ ["a"]) := by
    have hlong : ¬Directory.maxPath < "a".utf8ByteSize := by decide
    have hstart : ¬"a".startsWith "/" = true := by simp
    rw [Directory.follow, if_neg hlong, if_neg hstart, hwalk]
  simp only [Directory.read, hparts, hfollow, bind, Except.bind]
  rfl

/-- An input that is played twice, with fewer cycles than a second has. -/
theorem play_inputs_twice :
    let o : Options := { inputs := ["a", "a"], seconds := some 1, cycles := some 100 }
    let r : Recording := { directory := shelf }
    Opens o r shelf ∧ ∃ s audios, Loads o shelf "a" s ∧ List.Forall₂ (Heard o) [s, s] audios ∧
      (play Recording.services o r).1 = none ∧ Gets o shelf r (play Recording.services o r).2 (concat audios) := by
  intro o r
  have hopen : Opens o r shelf := .output rfl
  have hload (s : Session) : s.load _ = _ := Session.load_encode s {} .zero .zero
  have hinput : Loads o shelf "a" _ := ⟨_, read_shelf, load_eq_ok_iff.mpr ⟨by simp [o], _, hload _, rfl⟩⟩
  obtain ⟨audios, hplayed⟩ := play_inputs rfl hopen (.cons hinput (.cons hinput .nil))
  exact ⟨hopen, _, audios, hinput, hplayed⟩

end SnesSound.Player
