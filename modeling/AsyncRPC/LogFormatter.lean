import AsyncRPC.Address

/-!
# Log patterns

`LogFormatter::init`, which makes format items of a pattern, and `LogFormatter::format`, which writes
what they say of an event. A pattern is given from the character on that the loop is at.
-/

namespace AsyncRPC.LogFormatter

def percent : UInt8 := 37

def openBrace : UInt8 := 123

def closeBrace : UInt8 := 125

/-- `>` -/
def greater : UInt8 := 62

/-- `d` -/
def letterD : UInt8 := 100

section Items

inductive Level
  | debug
  | info
  | warn
  | error
  | fatal
  | unknow
  deriving Repr, DecidableEq

/-- `DEBUG`, `INFO`, `WARN`, `ERROR`, `FATAL` and, for everything else, `UNKOWN`. -/
def levelToString : Level → List UInt8
  | .debug => [68, 69, 66, 85, 71]
  | .info => [73, 78, 70, 79]
  | .warn => [87, 65, 82, 78]
  | .error => [69, 82, 82, 79, 82]
  | .fatal => [70, 65, 84, 65, 76]
  | .unknow => [85, 78, 75, 79, 87, 78]

/-- What the items read. `date` is what `strftime` makes of a format at the time of the event. -/
structure Event where
  date : List UInt8 → List UInt8
  level : Level
  loggerName : List UInt8
  threadId : BitVec 32
  threadName : List UInt8
  file : List UInt8
  line : BitVec 32
  content : List UInt8
  fiberId : BitVec 32

inductive FormatItem
  | dataTime (pattern : List UInt8)
  | string (str : List UInt8)
  | level
  | tab
  | logName
  | threadId
  | threadName
  | fileName
  | line
  | message
  | newLine
  | fiberId
  deriving Repr, DecidableEq

def FormatItem.format (event : Event) : FormatItem → List UInt8
  | .dataTime pattern => event.date pattern
  | .string str => str
  | .level => levelToString event.level
  | .tab => [9]
  | .logName => event.loggerName
  | .threadId => decimal event.threadId.toNat
  | .threadName => event.threadName
  | .fileName => event.file
  | .line => decimal event.line.toNat
  | .message => event.content
  | .newLine => [10]
  | .fiberId => decimal event.fiberId.toNat

def format (event : Event) (items : List FormatItem) : List UInt8 :=
  items.flatMap (FormatItem.format event)

end Items

section Init

/-- `%Y-%m-%d %H:%M:%S` -/
def defaultDate : List UInt8 := [37, 89, 45, 37, 109, 45, 37, 100, 32, 37, 72, 58, 37, 77, 58, 37, 83]

def dataTimeFormatItem (str : List UInt8) : FormatItem :=
  .dataTime (if str = [] then defaultDate else str)

/-- For the letters `d`, `T`, `p`, `c`, `t`, `N`, `f`, `l`, `m`, `n` and `F`. -/
def itemTable : List (UInt8 × (List UInt8 → FormatItem)) :=
  [(letterD, dataTimeFormatItem), (84, fun _ => .tab), (112, fun _ => .level), (99, fun _ => .logName),
    (116, fun _ => .threadId), (78, fun _ => .threadName), (102, fun _ => .fileName),
    (108, fun _ => .line), (109, fun _ => .message), (110, fun _ => .newLine), (70, fun _ => .fiberId)]

def itemMap (c : UInt8) : Option (List UInt8 → FormatItem) := itemTable.lookup c

/-- `<error format %`, and what follows. -/
def errorItem (what : List UInt8) : FormatItem :=
  .string ([60, 101, 114, 114, 111, 114, 32, 102, 111, 114, 109, 97, 116, 32, 37] ++ what)

/-- Behind `%d{`. -/
def bracedDate : List UInt8 → List FormatItem × List UInt8
  | [] => ([errorItem [greater]], [])
  | b :: others =>
      match (b :: others).idxOf? closeBrace with
      -- `i` stays at the first character behind the brace, and the next round is at the second
      | none => ([errorItem (letterD :: openBrace :: b :: others ++ [32, greater])], others)
      | some index => ([dataTimeFormatItem ((b :: others).take index)], (b :: others).drop (index + 1))

/-- Behind `%d`. -/
def dateDirective : List UInt8 → List FormatItem × List UInt8
  | [] => ([], [])
  | b :: behind =>
      if b ≠ openBrace then ([dataTimeFormatItem []], b :: behind) else bracedDate behind

/-- A round of the loop behind a `%`: the items it pushes, and the pattern from where the next round
is. -/
def directive : List UInt8 → List FormatItem × List UInt8
  | [] => ([errorItem [greater]], [])
  | c :: rest =>
      if c ≠ letterD then
        match itemMap c with
        | some make => ([make [c]], rest)
        | none => ([errorItem [c, greater]], rest)
      else dateDirective rest

theorem length_bracedDate_le (behind : List UInt8) : (bracedDate behind).2.length ≤ behind.length := by
  cases behind with
  | nil => exact Nat.le_refl _
  | cons b others =>
      rw [bracedDate]
      split
      · exact Nat.le_succ _
      · rw [List.length_drop]
        exact Nat.sub_le _ _

theorem length_directive_le (rest : List UInt8) : (directive rest).2.length ≤ rest.length := by
  cases rest with
  | nil => exact Nat.le_refl _
  | cons c rest =>
      rw [directive]
      split
      · split <;> exact Nat.le_succ _
      · cases rest with
        | nil => exact Nat.zero_le _
        | cons b behind =>
            rw [dateDirective]
            split
            · exact Nat.le_succ _
            · have hbehind := length_bracedDate_le behind
              rw [List.length_cons, List.length_cons]
              omega

/-- The loop. `str` has the characters outside of directives. -/
def initLoop (pattern str : List UInt8) (items : List FormatItem) : List FormatItem :=
  match pattern with
  | [] => items
  | c :: rest =>
      if c ≠ percent then initLoop rest (str ++ [c]) items
      else initLoop (directive rest).2 str (items ++ (directive rest).1)
termination_by pattern.length
decreasing_by
  · exact Nat.lt_succ_self _
  · exact Nat.lt_succ_of_le (length_directive_le rest)

def init (pattern : List UInt8) : List FormatItem := initLoop pattern [] []

end Init

section Pattern

/-- What a pattern is made of: characters outside of directives, `%d`, any other directive with the item
it is replaced by, and a `%d{` with no `}` behind it. -/
inductive Piece
  | literal (c : UInt8)
  | date
  | directive (item : FormatItem)
  | unclosed (rest : List UInt8)
  deriving Repr, DecidableEq

def Piece.item : Piece → FormatItem
  | .literal c => .string [c]
  | .date => dataTimeFormatItem []
  | .directive item => item
  | .unclosed rest => errorItem (letterD :: openBrace :: rest ++ [32, greater])

inductive Made : List UInt8 → List Piece → Prop
  | nil : Made [] []
  | literal {c : UInt8} {rest : List UInt8} {pieces : List Piece} :
      c ≠ percent → Made rest pieces → Made (c :: rest) (.literal c :: pieces)
  | known {c : UInt8} {make : List UInt8 → FormatItem} {rest : List UInt8} {pieces : List Piece} :
      c ≠ letterD → itemMap c = some make → Made rest pieces →
      Made (percent :: c :: rest) (.directive (make [c]) :: pieces)
  | unknown {c : UInt8} {rest : List UInt8} {pieces : List Piece} :
      itemMap c = none → Made rest pieces →
      Made (percent :: c :: rest) (.directive (errorItem [c, greater]) :: pieces)
  | atEnd : Made [percent] [.directive (errorItem [greater])]
  | date {rest : List UInt8} {pieces : List Piece} :
      rest.head? ≠ some openBrace → Made rest pieces → Made (percent :: letterD :: rest) (.date :: pieces)
  | dateFormat {format rest : List UInt8} {pieces : List Piece} :
      closeBrace ∉ format → Made rest pieces →
      Made (percent :: letterD :: openBrace :: (format ++ closeBrace :: rest))
        (.directive (dataTimeFormatItem format) :: pieces)
  | braceAtEnd : Made [percent, letterD, openBrace] [.directive (errorItem [greater])]
  | unclosed {rest : List UInt8} : rest ≠ [] → closeBrace ∉ rest →
      Made (percent :: letterD :: openBrace :: rest) [.unclosed rest]

/-- Every piece is in its place in what is written of an event. -/
def Formats (pattern : List UInt8) (pieces : List Piece) : Prop :=
  ∀ event, format event (init pattern) = format event (pieces.map Piece.item)

/-- No directive but a `%d` at the end. -/
def Silent (text : List UInt8) : Prop :=
  percent ∉ text ∨ ∃ before, percent ∉ before ∧ text = before ++ [percent, letterD]

/-- Nothing but directives, no `%d` at the end, and no directive to be found again behind a `%d{` that
is not closed. -/
structure Kept (pieces : List Piece) : Prop where
  directives : ∀ c, .literal c ∉ pieces
  last : pieces.getLast? ≠ some .date
  behind : ∀ rest, .unclosed rest ∈ pieces → Silent rest.tail

end Pattern

end AsyncRPC.LogFormatter
