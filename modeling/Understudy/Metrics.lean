import Understudy.Decimal.Layout

/-!
# Understudy.Metrics

What a server counts, and the text in which it reports it.

Observations are kept as they come, and the report is a function of them: a family for every kind of
observation that there is, and samples in it. An observation belongs to the sample of its `key`: its
label values, one after the other without anything between them. Values that are cut otherwise but
spell the same key share a sample, which shows the values that came first. Families are in the order
of their names, labels in the order of theirs, and samples in the order of the label values.
-/

namespace Understudy

/-- Something that is counted. -/
inductive Observation where
  /-- A request was answered. -/
  | request (dispatcher : String) (status : UInt16)
  /-- Something happened to a session. -/
  | session (event : String)
  /-- A collection answered a request. -/
  | collection (verb result : String)
  /-- A dispatcher took some milliseconds. -/
  | duration (dispatcher : String) (milliseconds : Float)

namespace Metrics

/-! ### Text -/

/-- A value in quotes. Quotes, backslashes and line feeds are escaped. -/
def quote (value : String) : String :=
  String.ofList (('"' :: value.toList.flatMap fun c =>
    if c = '\\' then ['\\', '\\']
    else if c = '"' then ['\\', '"']
    else if c = '\n' then ['\\', 'n']
    else [c]) ++ ['"'])

/-- Numbers have no exponent, and a whole one has no point. -/
def layout : Decimal.Layout := ⟨-400, 400, false⟩

/-- A float as metrics write it. -/
def number (x : Float) : String := String.ofList ((Decimal.floatText? layout x).getD [])

/-- A sample: its name, its labels and their values, and what it counts. -/
def sample (name : String) (labels : List (String × String)) (value : String) : String :=
  let pairs := labels.map fun label => label.1 ++ "=" ++ quote label.2
  name ++ "\x7b" ++ String.intercalate "," pairs ++ "\x7d " ++ value

/-! ### Families -/

/-- A family of samples. -/
structure Family where
  name : String
  help : String
  labels : List String
deriving Repr, DecidableEq

/-- What collections answered. -/
def collections : Family :=
  ⟨"mock_crud_operations_total", "Total number of CRUD store operations", ["result", "verb"]⟩

/-- How long dispatchers took. -/
def durations : Family :=
  ⟨"mock_dispatch_duration_ms", "Histogram of dispatch time in milliseconds", ["dispatcher"]⟩

/-- The requests that were answered. -/
def requests : Family :=
  ⟨"mock_requests_total", "Total number of requests answered by the mock server",
    ["dispatcher", "status"]⟩

/-- What happened to sessions. -/
def sessions : Family :=
  ⟨"mock_websocket_sessions_total", "WebSocket session lifecycle events", ["event"]⟩

/-- The label values of an observation, in the order of the labels of its family. -/
def row : Observation → List String
  | .request dispatcher status => [dispatcher, toString status.toNat]
  | .session event => [event]
  | .collection verb result => [result, verb]
  | .duration dispatcher _ => [dispatcher]

/-- The family that an observation belongs to. -/
def family : Observation → Family
  | .request .. => requests
  | .session .. => sessions
  | .collection .. => collections
  | .duration .. => durations

/-- What an observation has in common, within its family, with all others of its sample. -/
def key : Observation → String
  | .request dispatcher status => dispatcher ++ toString status.toNat
  | .session event => event
  | .collection verb result => verb ++ result
  | .duration dispatcher _ => dispatcher

/-- The first observation of each sample, in the order of the label values. -/
def firsts (observations : List Observation) : List Observation :=
  (observations.eraseDupsBy fun a b => key a = key b).mergeSort fun a b => !(decide (row b < row a))

/-- The two lines before the samples of a family. -/
def heading (f : Family) (type : String) : List String :=
  ["# HELP " ++ f.name ++ " " ++ f.help, "# TYPE " ++ f.name ++ " " ++ type]

/-- The lines of a family that counts, one for each row of labels, in the order in which they first
came up. -/
def counterLines (f : Family) (observations : List Observation) : List String :=
  heading f "counter" ++ (firsts observations).map fun first =>
    let count := observations.countP fun o => key o = key first
    sample f.name (f.labels.zip (row first)) (toString count)

/-- The upper ends of the buckets of a histogram. -/
def bounds : List Float := [0.05, 0.1, 0.5, 1.0, 2.5, 5.0, 10.0, 25.0]

/-- The lines of a histogram for one sample. -/
def bucketLines (f : Family) (labels : List (String × String)) (values : List Float) :
    List String :=
  let bucket (bound : String) (count : Nat) : String :=
    sample (f.name ++ "_bucket") (labels ++ [("le", bound)]) (toString count)
  bounds.map (fun bound => bucket (number bound) (values.countP (· ≤ bound))) ++
    [bucket "+Inf" values.length,
      sample (f.name ++ "_sum") labels (number (values.foldl (· + ·) 0)),
      sample (f.name ++ "_count") labels (toString values.length)]

/-- The duration of an observation that has one. -/
def milliseconds? : Observation → Option Float
  | .duration _ x => some x
  | _ => none

/-- The lines of a family that adds observations up. -/
def histogramLines (f : Family) (observations : List Observation) : List String :=
  heading f "histogram" ++ (firsts observations).flatMap fun first =>
    let mine := observations.filter fun o => key o = key first
    bucketLines f (f.labels.zip (row first)) (mine.filterMap milliseconds?)

/-- The lines of a family; there are none without observations. -/
def lines (f : Family) (observations : List Observation) : List String :=
  let mine := observations.filter fun o => family o = f
  if mine.isEmpty then []
  else if f = durations then histogramLines f mine
  else counterLines f mine

/-- The families in the order of their names. -/
def families : List Family := [collections, durations, requests, sessions]

/-- The whole report. -/
def report (observations : List Observation) : List String :=
  families.flatMap fun f => lines f observations

end Metrics

end Understudy
