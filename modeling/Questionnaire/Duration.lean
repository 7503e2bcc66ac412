import Questionnaire.Json.Record

/-!
# Durations

A duration is a span of time without a calendar: a month has 30 days and a year 365.  Its JSON form
is a record of its units.  All of them are written; those that are not read are zero.
-/

namespace Questionnaire

/-- A span of time, given in several units that add up. -/
structure Duration where
  years : Int := 0
  months : Int := 0
  weeks : Int := 0
  days : Int := 0
  hours : Int := 0
  minutes : Int := 0
  seconds : Int := 0
  deriving DecidableEq, Repr

namespace Duration

/-- A number of days. -/
def ofDays (n : Int) : Duration := { days := n }

/-- A number of weeks. -/
def ofWeeks (n : Int) : Duration := { weeks := n }

/-- A number of hours. -/
def ofHours (n : Int) : Duration := { hours := n }

/-- The length of a duration in seconds. -/
def toSeconds (d : Duration) : Int :=
  d.years * (365 * 86400) + d.months * (30 * 86400) + d.weeks * (7 * 86400) + d.days * 86400
    + d.hours * 3600 + d.minutes * 60 + d.seconds

/-- The JSON form of a duration. -/
def toJson (d : Duration) : Json :=
  .record [
    .required "years" (.int d.years),
    .required "months" (.int d.months),
    .required "weeks" (.int d.weeks),
    .required "days" (.int d.days),
    .required "hours" (.int d.hours),
    .required "minutes" (.int d.minutes),
    .required "seconds" (.int d.seconds)]

/-- The fields of a duration. -/
def fields : Fields Duration :=
  Duration.mk <$> .withDefault "years" .int64 0 <*> .withDefault "months" .int64 0
    <*> .withDefault "weeks" .int64 0
    <*> .withDefault "days" .int64 0
    <*> .withDefault "hours" .int64 0
    <*> .withDefault "minutes" .int64 0
    <*> .withDefault "seconds" .int64 0

end Duration

end Questionnaire
