import OpeningHours.Calendar.ClockTime
import OpeningHours.Calendar.Date
import OpeningHours.Calendar.DateText
import OpeningHours.Calendar.Moment
import OpeningHours.Calendar.MonthDay
import OpeningHours.Calendar.MonthRange
import OpeningHours.Calendar.TimeZone
import OpeningHours.Calendar.Weekday
import OpeningHours.ClosedDays.Ascending
import OpeningHours.ClosedDays.ClosedDays
import OpeningHours.ClosedDays.Dates
import OpeningHours.ClosedDays.Reading
import OpeningHours.ClosedDays.Rule
import OpeningHours.ClosedDays.Wording
import OpeningHours.Fault
import OpeningHours.Holiday.Cache
import OpeningHours.Holiday.Disk
import OpeningHours.Holiday.Names
import OpeningHours.Holiday.OrderedEntries
import OpeningHours.Holiday.Payload
import OpeningHours.Holiday.Query
import OpeningHours.Holiday.Service
import OpeningHours.Hours.OpeningTimes
import OpeningHours.Hours.Reading
import OpeningHours.Hours.Segment
import OpeningHours.Hours.Window
import OpeningHours.Hours.Wording
import OpeningHours.Hours.WrittenTime
import OpeningHours.Json.Reader
import OpeningHours.Json.Value
import OpeningHours.Json.Writer
import OpeningHours.Numeral.Decimal
import OpeningHours.Numeral.Kanji
import OpeningHours.Schedule
import OpeningHours.Scope.Days
import OpeningHours.Scope.Months
import OpeningHours.Text.Basic
import OpeningHours.Text.Bracket
import OpeningHours.Text.NormalForm
import OpeningHours.Text.Pattern.Basic
import OpeningHours.Text.Pattern.Lemmas
import OpeningHours.Text.Pattern.Number
import OpeningHours.Text.Remainder
import OpeningHours.Text.WordCharacter
import OpeningHours.Tristate
import OpeningHours.Proofs.Calendar.DayCount
import OpeningHours.Proofs.Hours.Timeline
import OpeningHours.Proofs.Pattern.Extraction
import OpeningHours.Proofs.Pattern.Alphabet
import OpeningHours.Proofs.Text.Pieces
import OpeningHours.Proofs.Text.Tidy
import OpeningHours.Proofs.Pattern.Digits
import OpeningHours.Proofs.Hours.RangeText
import OpeningHours.Proofs.Scope.MonthText
import OpeningHours.Proofs.Scope.StandingAlone
import OpeningHours.Proofs.Scope.DayText
import OpeningHours.Proofs.Hours.PlainText
import OpeningHours.Proofs.Scope.DayList
import OpeningHours.Proofs.Hours.HoursText
import OpeningHours.Proofs.Scope.DayPhrase
import OpeningHours.Proofs.Hours.HolidayExclusion
import OpeningHours.Proofs.ClosedDays.NumeralText
import OpeningHours.Proofs.Pattern.Joined
import OpeningHours.Proofs.ClosedDays.DatePasses
import OpeningHours.Proofs.ClosedDays.RecurringPasses
import OpeningHours.Proofs.ClosedDays.ClosedDaysText
import OpeningHours.Proofs.Pattern.Continued
import OpeningHours.Proofs.Pattern.Lookahead
import OpeningHours.Proofs.Text.NormalForm
import OpeningHours.Proofs.Hours.LateHours
import OpeningHours.Proofs.Hours.ListedDays
import OpeningHours.Proofs.ClosedDays.Remarks
import OpeningHours.Proofs.ClosedDays.YearEnd
import OpeningHours.Proofs.Hours.Lines
import OpeningHours.Proofs.Holiday.YearFile
import OpeningHours.Proofs.Holiday.OrderedEntries
import OpeningHours.Proofs.Holiday.Names
import OpeningHours.Proofs.Holiday.Questions
import OpeningHours.Proofs.Holiday.Memory
import OpeningHours.Proofs.Holiday.Folder
import OpeningHours.Proofs.Json.StringObject
import OpeningHours.Proofs.Holiday.Payload
import OpeningHours.Proofs.Holiday.Restart
import OpeningHours.Proofs.Hours.AddedSegment
import OpeningHours.Proofs.Hours.Status
import OpeningHours.Proofs.Calendar.WeekdayDates
import OpeningHours.Proofs.Hours.WellFormed
import OpeningHours.Proofs.ClosedDays.WellFormed
import OpeningHours.Proofs.Pattern.Spelling
import OpeningHours.Proofs.Pattern.Composition
import OpeningHours.Proofs.Scope.IdleDays
import OpeningHours.Proofs.Scope.ReportedWords
import OpeningHours.Proofs.ClosedDays.Conservation
import OpeningHours.Proofs.Scope.AttachedKanji
import OpeningHours.Proofs.ClosedDays.NonWeeklyPhrases
import OpeningHours.Proofs.Schedule.NormalForm
import OpeningHours.Proofs.Holiday.AsksOnly
import OpeningHours.Proofs.Schedule.AskedDates
import OpeningHours.Proofs.Calendar.Intervals
import OpeningHours.Proofs.ClosedDays.OrdinalWeekdays
import OpeningHours.Proofs.ClosedDays.Shifting
import OpeningHours.Proofs.ClosedDays.DateSpans
import OpeningHours.Proofs.Schedule.Availability
import OpeningHours.Proofs.Text.Parenthetical
import OpeningHours.Proofs.Hours.Parenthetical
import OpeningHours.Proofs.ClosedDays.OpenOnHolidays
import OpeningHours.Proofs.Text.Cleanup
import OpeningHours.Proofs.Numeral.Kanji
import OpeningHours.Proofs.Numeral.Overflow
import OpeningHours.Proofs.Text.ByteOrder
import OpeningHours.Proofs.Holiday.Spellings
import OpeningHours.Proofs.Text.Replacement
import OpeningHours.Proofs.Holiday.Address
import OpeningHours.Proofs.Text.TopLevel
import OpeningHours.Proofs.Text.Words
import OpeningHours.Proofs.Text.Note
