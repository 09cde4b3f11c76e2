import SchedulerLm.TriggerParse

/-!
# Datetimes without an offset

A `once` trigger of the model comes with a datetime, which may have no offset from UTC.
The time zone of the request is passed along with the reply, and used for crontabs
only: a datetime without an offset is one of UTC in the end. So it is read in the
time zone iff this one is not ahead of UTC, or behind it, then (`readIn_iff`).
-/

namespace SchedulerLm

open Zones

/-- The instant is that of the datetime, if this has an offset, and otherwise the clocks of
    the time zone show the datetime then. -/
def ReadIn (zone : Zone) (d : Datetime) (t : Instant) : Prop :=
  match d.utcoffset with
  | some offset => t = d.wall - offset
  | none => (zone.fromUtc t).wall = d.wall

variable {lib : ParseLib} {timezone : String} {output : TriggerParseLLMOutput}
  {spec : StructuredTriggerSpec} {zone : Zone} {d : Datetime}

/-- Reading a datetime as one of UTC is reading it in a time zone iff the offset of
    that zone is zero then. -/
theorem readIn_instant_iff : ReadIn zone d d.instant ↔ d.utcoffset ≠ none ∨
    zone.offsetAt d.wall = 0 := by
  obtain ⟨wall, _ | offset⟩ := d
  · rw [ReadIn, Zone.fromUtc, Datetime.instant]
    simp
  · rw [ReadIn, Datetime.instant]
    simp

/-- The datetime of a reply of type `once` is that of the specification. -/
theorem triggerSpecFromLlmOutput_once (honce : output.type = .once)
    (h : triggerSpecFromLlmOutput lib timezone output = .ok spec) :
    ∃ text d, output.onceDatetime = some (.text text) ∧ Datetime.fromisoformat text = some d ∧
      spec = .once d := by
  rw [triggerSpecFromLlmOutput, honce] at h
  dsimp only at h
  split at h
  · exact absurd h (by simp)
  · exact absurd h (by simp)
  · rename_i text hdatetime
    split at h
    · exact absurd h (by simp)
    · rename_i d hd
      exact ⟨text, d, hdatetime, hd, (Except.ok.inj h).symm⟩

/-- The trigger that is built, and the one that is stored, fire at the datetime of the reply
    as it is read in the time zone of the request, iff it has an offset or that of the
    zone is zero then. -/
theorem readIn_iff (honce : output.type = .once)
    (h : triggerSpecFromLlmOutput lib timezone output = .ok spec) :
    ∃ text d runTime stored, output.onceDatetime = some (.text text) ∧
      Datetime.fromisoformat text = some d ∧
      (∀ now, buildTrigger lib.crontab now spec = .ok (.date runTime false)) ∧
      triggerConfigFromSpec spec = .once stored ∧
      (ReadIn (lib.zoneInfo timezone) d runTime.instant ∧
        ReadIn (lib.zoneInfo timezone) d stored.instant ↔
        d.utcoffset ≠ none ∨ (lib.zoneInfo timezone).offsetAt d.wall = 0) := by
  obtain ⟨text, d, hdatetime, hd, rfl⟩ := triggerSpecFromLlmOutput_once honce h
  refine ⟨text, d, d.assumeUtc, d.assumeUtc, hdatetime, hd, fun _ => rfl, rfl, ?_⟩
  rw [Datetime.instant_assumeUtc, and_self_iff]
  exact readIn_instant_iff

/-- A reply of type `once`. -/
def onceOutput (text : String) (h : text ≠ "") : TriggerParseLLMOutput where
  thought := ⟨"One-time run.", by decide⟩
  type := .once
  cronExpr := none
  intervalValue := none
  intervalUnit := none
  onceDatetime := some (.text text)
  typeFields := by simp [OutputFields.validateTypeFields, isMissing, h]

/-- The time zone of the request is that of New York. -/
def ParseLib.inNewYork : ParseLib := { ParseLib.sample with zoneInfo := fun _ => .newYork }

/-- Nine in the morning, in UTC, is read as such. -/
theorem readIn_withOffset :
    ∃ d runTime, Datetime.fromisoformat "2026-05-25T09:00:00+00:00" = some d ∧
    buildTrigger .never 0 (.once d) = .ok (.date runTime false) ∧
      ReadIn .newYork d runTime.instant := by
  have hread : Datetime.fromisoformat "2026-05-25T09:00:00+00:00" =
      some ⟨1779699600000000, some 0⟩ := by
    decide +kernel
  have hspec : triggerSpecFromLlmOutput .inNewYork "America/New_York"
      (onceOutput "2026-05-25T09:00:00+00:00" (by decide)) =
        .ok (.once ⟨1779699600000000, some 0⟩) := by
    simp only [triggerSpecFromLlmOutput, onceOutput, hread]
  obtain ⟨text, d, runTime, stored, hdatetime, hd, hbuild, -, hiff⟩ := readIn_iff rfl hspec
  obtain rfl : "2026-05-25T09:00:00+00:00" = text := by simpa [onceOutput] using hdatetime
  obtain rfl := Option.some.inj (hread.symm.trans hd)
  exact ⟨_, runTime, hread, hbuild 0, (hiff.2 (.inl (by decide))).1⟩

/-- A datetime would be read in the time zone of the request: nine in the morning, in New
    York, is nine in UTC, four hours before. -/
theorem not_readIn : ¬∀ (lib : ParseLib) (timezone : String) (output : TriggerParseLLMOutput)
    (spec : StructuredTriggerSpec) (text : String) (d runTime : Datetime), output.type = .once →
    output.onceDatetime = some (.text text) → Datetime.fromisoformat text = some d →
    triggerSpecFromLlmOutput lib timezone output = .ok spec →
    buildTrigger lib.crontab 0 spec = .ok (.date runTime false) →
    ReadIn (lib.zoneInfo timezone) d runTime.instant := by
  intro h
  have hread : Datetime.fromisoformat "2026-05-25T09:00:00" = some ⟨1779699600000000, none⟩ := by
    decide +kernel
  have hspec : triggerSpecFromLlmOutput .inNewYork "America/New_York"
      (onceOutput "2026-05-25T09:00:00" (by decide)) = .ok (.once ⟨1779699600000000, none⟩) := by
    simp only [triggerSpecFromLlmOutput, onceOutput, hread]
  have hwall : (Zone.newYork.fromUtc 1779699600000000).wall ≠ 1779699600000000 := by decide
  exact hwall (h .inNewYork "America/New_York" _ _ _ _ _ rfl rfl hread hspec rfl)

end SchedulerLm
