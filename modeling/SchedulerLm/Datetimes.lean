import SchedulerLm.Schemas
import SchedulerLm.Base.Iso8601

/-!
# Datetimes as texts

The texts the service stores its datetimes as, and reads them from:
`datetime.isoformat` and `datetime.fromisoformat`. A datetime that exists is read
back as it was written (`fromisoformat_isoformat`), also after the replacement of
`Z` that `_trigger_columns` makes (`replaceZ_isoformat`).
-/

namespace SchedulerLm

open Calendar

namespace Datetime

/-- The datetime exists: its wall clock reading is from the years 1 to 9999, and
    it is less than a day off UTC. -/
structure Valid (d : Datetime) : Prop where
  wall : Fields.InRange d.wall
  utcoffset : ∀ o, d.utcoffset = some o → o.natAbs < Fields.dayLength

/-- `isoformat`. -/
def isoformat (d : Datetime) : String := .ofList (Iso8601.format (.ofWall d.wall) d.utcoffset)

/-- `datetime.fromisoformat`, or `none` for a `ValueError`. -/
def fromisoformat (text : String) : Option Datetime :=
  (Iso8601.parse text.toList).map fun (fields, offset) => ⟨fields.wall, offset⟩

/-- `text.replace("Z", "+00:00")`. -/
def replaceZ (text : String) : String :=
  .ofList (text.toList.flatMap fun c => if c = 'Z' then "+00:00".toList else [c])

variable {d : Datetime}

/-- A datetime is read as it was written. -/
theorem fromisoformat_isoformat (h : d.Valid) : fromisoformat d.isoformat = some d := by
  rw [fromisoformat, isoformat, String.toList_ofList,
    Iso8601.parse_format (Fields.valid_ofWall h.wall) h.utcoffset]
  exact congrArg (fun wall => some (Datetime.mk wall d.utcoffset)) (Fields.wall_ofWall h.wall)

/-- A datetime is written without `Z`. -/
theorem replaceZ_isoformat (d : Datetime) : replaceZ d.isoformat = d.isoformat := by
  have hsame : ∀ cs : List Char, 'Z' ∉ cs →
      (cs.flatMap fun c => if c = 'Z' then "+00:00".toList else [c]) = cs := by
    intro cs hcs
    induction cs with
    | nil => rfl
    | cons c cs ih =>
      rw [List.mem_cons, not_or] at hcs
      rw [List.flatMap_cons, if_neg (Ne.symm hcs.1), ih hcs.2, List.singleton_append]
  rw [replaceZ, isoformat, @String.toList_ofList (Iso8601.format _ _),
    hsame _ (Iso8601.not_mem_format _ (by decide) (by decide))]

theorem Valid.assumeUtc (h : d.Valid) : d.assumeUtc.Valid := by
  obtain ⟨wall, _ | offset⟩ := d
  · refine ⟨h.wall, ?_⟩
    rintro o ho
    obtain rfl := Option.some.inj ho
    decide
  · exact h

/-- An instant in the range of datetimes is one in UTC. -/
theorem valid_ofInstant {t : Instant} (h : Fields.InRange t) : (ofInstant t).Valid := by
  refine ⟨h, ?_⟩
  rintro o ho
  obtain rfl := Option.some.inj ho
  decide

end Datetime

end SchedulerLm
