import Milestone.Reconcile

/-!
# The part of a tick that may change the state

Before any pass runs, a tick looks at the world and at the baseline. This file writes the outcome of that
part as one record with a formula for each field. Everything that is said later about the saved state,
about the two reports on it and about the need to save is read off this record.
-/

namespace Milestone

namespace Sources

/-- Whether a tick finds a world other than the one that the checklist knows. -/
def entersWorld (s : Sources) (c : Checklist) : Bool :=
  s.world.any fun world => c.world != some world

/-- Whether a tick finds another world than one that was seen before. -/
def changesWorld (s : Sources) (c : Checklist) : Bool :=
  s.entersWorld c && c.world.isSome

/-- Whether a tick captures a baseline: only where counters run through all worlds, with a world that
the baseline is not of, and with the counters at hand. -/
def capturesBaseline (s : Sources) (version : Version) (b : Baseline) : Bool :=
  version.era == .legacy && s.statistics.isSome && s.world.any b.isNeededFor

/-- Whether a tick clears the manual progress. -/
def clearsProgress (s : Sources) (version : Version) (c : Checklist) (b : Baseline) : Bool :=
  s.changesWorld c || s.capturesBaseline version b

/-- Of a checklist only its world matters for whether a tick enters another one. -/
theorem entersWorld_congr {c d : Checklist} (h : c.world = d.world) (s : Sources) :
    s.entersWorld c = s.entersWorld d := by
  simp only [entersWorld, h]

/-- Whether a tick changes the world depends on the world of the checklist alone. -/
theorem changesWorld_congr {c d : Checklist} (h : c.world = d.world) (s : Sources) :
    s.changesWorld c = s.changesWorld d := by
  simp only [changesWorld, entersWorld_congr h, h]

/-- So does whether it clears the manual progress, given the baseline. -/
theorem clearsProgress_congr {c d : Checklist} (h : c.world = d.world) (s : Sources)
    (version : Version) (b : Baseline) :
    s.clearsProgress version c b = s.clearsProgress version d b := by
  simp only [clearsProgress, changesWorld_congr h]

end Sources

namespace Baseline

/-- The baseline from which a tick counts: a new one where it captures one. -/
def renewed (b : Baseline) (version : Version) (now : Instant) (s : Sources) (c : Checklist) :
    Baseline :=
  match s.world, s.statistics with
  | some world, some doc =>
    if version.era = .legacy ∧ b.isNeededFor world then capture c world doc version now else b
  | _, _ => b

/-- Without a capture the baseline stays. -/
theorem renewed_of_not_captures {b : Baseline} {version : Version} {s : Sources}
    (h : s.capturesBaseline version b = false) (now : Instant) (c : Checklist) :
    b.renewed version now s c = b := by
  unfold renewed
  split
  · rename_i world doc hw hd
    refine if_neg fun hn => ?_
    simp [Sources.capturesBaseline, hw, hd, hn.1, hn.2] at h
  · rfl

/-- A capture takes the world and the counters of the tick. -/
theorem renewed_of_captures {b : Baseline} {version : Version} {s : Sources}
    (h : s.capturesBaseline version b = true) (now : Instant) (c : Checklist) :
    ∃ world doc, s.world = some world ∧ s.statistics = some doc ∧
      b.renewed version now s c = capture c world doc version now := by
  simp only [Sources.capturesBaseline, Bool.and_eq_true, beq_iff_eq, Option.isSome_iff_exists,
    Option.any_eq_true] at h
  obtain ⟨⟨hera, doc, hd⟩, world, hw, hneeded⟩ := h
  refine ⟨world, doc, hw, hd, ?_⟩
  simp only [renewed, hw, hd]
  exact if_pos ⟨hera, hneeded⟩

/-- With a world and its counters at hand, a tick of the oldest era counts from a baseline of that
world. -/
theorem renewed_world {b : Baseline} {version : Version} {s : Sources} {world : String}
    {doc : Json.Value} (hera : version.era = .legacy) (hw : s.world = some world)
    (hd : s.statistics = some doc) (now : Instant) (c : Checklist) :
    (b.renewed version now s c).world = some world := by
  simp only [renewed, hw, hd, hera, true_and]
  split
  · rfl
  · rename_i hn
    simpa [isNeededFor] using hn

section Names

variable {c d : Checklist} (h : c.advancements.map (·.name) = d.advancements.map (·.name))

include h

/-- A capture takes from a checklist only the names of its advancements. -/
theorem capture_congr (world : String) (doc : Json.Value) (version : Version) (now : Instant) :
    capture c world doc version now = capture d world doc version now := by
  have hearned (e : Checklist) : earnedIn e doc =
      .ofList (((e.advancements.map (·.name)).filter (Era.legacy.entryDone doc)).map (·, true)) := by
    rw [earnedIn, List.filter_map, List.map_map]
    rfl
  unfold capture
  rw [hearned, hearned, h]

/-- A baseline takes the names of the advancements from a checklist, and nothing else. -/
theorem renewed_congr (b : Baseline) (version : Version) (now : Instant) (s : Sources) :
    b.renewed version now s c = b.renewed version now s d := by
  unfold renewed
  split
  · rw [capture_congr h]
  · rfl

end Names

end Baseline

namespace Tracked

/-- Entering a world, as a formula for each field. -/
theorem enterWorld_start (c : Checklist) (state : SavedState) {s : Sources} {world : String}
    (hw : s.world = some world) :
    (start c state).enterWorld world =
      { checklist := { c with world := some world }
        state :=
          { overrides := if s.changesWorld c then ∅ else state.overrides
            custom := if s.changesWorld c then ∅ else state.custom
            baseline := state.baseline
            world := if s.entersWorld c then some world else state.world }
        worldChanged := s.changesWorld c
        baselineCaptured := false
        dirty := s.entersWorld c } := by
  by_cases hc : c.world = some world
  · have hsame : { c with world := some world } = c := by rw [← hc]
    simp [enterWorld, start, Sources.changesWorld, Sources.entersWorld, hw, hc, hsame]
  · cases hv : c.world <;>
      simp_all [enterWorld, start, Sources.changesWorld, Sources.entersWorld,
        SavedState.resetProgress]

/-- A capture clears the manual progress and replaces the baseline; else nothing happens. -/
theorem captureBaseline_eq (t : Tracked) (version : Version) {s : Sources} {world : String}
    (hw : s.world = some world) (now : Instant) :
    t.captureBaseline version world s.statistics now =
      if s.capturesBaseline version t.state.baseline then
        { t with
          state := { t.state with
            overrides := ∅
            custom := ∅
            baseline := t.state.baseline.renewed version now s t.checklist }
          baselineCaptured := true
          dirty := true }
      else t := by
  unfold captureBaseline
  cases hd : s.statistics with
  | none => simp [Sources.capturesBaseline, hd]
  | some doc =>
    by_cases hn : version.era = .legacy ∧ t.state.baseline.isNeededFor world
    · simp [Sources.capturesBaseline, Baseline.renewed, SavedState.resetProgress, hd, hw, hn]
    · have hb : s.capturesBaseline version t.state.baseline = false := by
        simpa [Sources.capturesBaseline, hd, hw] using hn
      simp [hn, hb]

/-- The state, the checklist and the reports after a tick has looked at the world and the baseline. -/
theorem detect_start (c : Checklist) (state : SavedState) (version : Version) (s : Sources)
    (now : Instant) :
    (start c state).detect version s now =
      { checklist :=
          { c with
            world := s.world.or c.world
            baseline := state.baseline.renewed version now s c }
        state :=
          { overrides := if s.clearsProgress version c state.baseline then ∅ else state.overrides
            custom := if s.clearsProgress version c state.baseline then ∅ else state.custom
            baseline := state.baseline.renewed version now s c
            world := if s.entersWorld c then s.world else state.world }
        worldChanged := s.changesWorld c
        baselineCaptured := s.capturesBaseline version state.baseline
        dirty := s.entersWorld c || s.capturesBaseline version state.baseline } := by
  unfold detect
  cases hw : s.world with
  | none =>
    simp [start, Sources.clearsProgress, Sources.changesWorld, Sources.entersWorld,
      Sources.capturesBaseline, Baseline.renewed, hw]
  | some world =>
    simp only [enterWorld_start c state hw, captureBaseline_eq _ version hw, Option.some_or]
    cases hb : s.capturesBaseline version state.baseline with
    | true => simp [Sources.clearsProgress, hb]; rfl
    | false => simp [Sources.clearsProgress, hb, Baseline.renewed_of_not_captures hb]

end Tracked

end Milestone
