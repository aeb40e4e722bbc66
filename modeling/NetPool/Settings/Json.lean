import NetPool.Asset.Json
import NetPool.Settings

/-! # Settings as JSON -/

namespace NetPool.Settings

open Json in
/-- How settings are read. What is absent has its usual value. -/
def recordReader : RecordReader Settings Settings where
  expected := "struct ReservationConfig"
  start := standard
  fields := [
    field ledgerPathKey false (readString "path string") fun p v => { p with ledgerPath := v },
    field lockPathKey false (readNullable (readString "path string")) fun p v =>
      { p with lockPath? := v },
    field lockTimeoutKey false (readNatural "u64" wordLimit) fun p v =>
      { p with lockTimeoutSecs := v },
    field lockPollKey false (readNatural "u64" wordLimit) fun p v =>
      { p with lockPollMillis := v },
    field uriKey false readAnyString fun p v => { p with uri := v },
    field virshPathKey false readAnyString fun p v => { p with virshPath := v },
    field maxAttemptsKey false (readNatural "u32" attemptsLimit) fun p v =>
      { p with maxAttempts := v },
    field templateKey false Template.recordReader.read fun p v => { p with template := v }]
  finish := .ok

def ofJson (s : String) : Except Json.Fault Settings := Json.parse recordReader.read s.toList

end NetPool.Settings
