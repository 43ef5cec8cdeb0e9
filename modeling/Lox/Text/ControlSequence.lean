set_option autoImplicit false

namespace Lox

/-- The beginnings of a sequence in which layout is shown. -/
inductive Opening where
  | escape
  | intermediate
  /-- Behind `ESC [`. -/
  | control
deriving DecidableEq

/-- Where in a sequence a terminal is, after what it has been sent. -/
inductive SequenceState where
  | ground
  | opened (opening : Opening)
  /-- Layout was met in the sequence, and text is shown until another control character resumes
  it. -/
  | interrupted (opening : Opening)
  /-- Behind `ESC ]`, in a command that the bell character ends. -/
  | command
  /-- Behind `ESC P`. -/
  | device
  | deviceParameters
  | deviceIntermediate
  /-- In a string of any characters up to the terminator. -/
  | string
deriving DecidableEq

/-- The control characters that lay out text: tab, line feed, form feed and carriage return. -/
def isLayout (c : Char) : Bool :=
  c == '\t' || c == '\n' || c == '\x0c' || c == '\r'

def isShown (c : Char) : Bool :=
  decide (' ' ≤ c) && c != '\x7f' || isLayout c

/-- Whether `c` ends a string. The terminator is the byte `0x9C`, also inside a longer character. -/
def endsString (c : Char) : Bool :=
  (String.utf8EncodeChar c).contains 0x9C

def isBetween (first last : Char) (c : Char) : Bool :=
  decide (first ≤ c) && decide (c ≤ last)

def Opening.next (opening : Opening) (c : Char) : SequenceState :=
  if isLayout c then .interrupted opening
  else
    match opening with
    | escape =>
      if isBetween ' ' '/' c then .opened intermediate
      else if c = '[' then .opened control
      else if c = ']' then .command
      else if c = 'P' then .device
      else if c = 'X' ∨ c = '^' ∨ c = '_' then .string
      else if isBetween '0' '~' c then .ground
      else .opened escape
    | intermediate => if isBetween '0' '~' c then .ground else .opened intermediate
    | control => if isBetween '@' '~' c then .ground else .opened control

/-- The state behind `c`. Escape always opens a sequence, cancel and substitute always end one; what
is not ASCII ends an interrupted one. -/
def SequenceState.next (state : SequenceState) (c : Char) : SequenceState :=
  if c = '\x1b' then opened .escape
  else if c = '\x18' ∨ c = '\x1a' then ground
  else
    match state with
    | ground => ground
    | opened opening => opening.next c
    | interrupted opening =>
      if '\x7f' < c then ground
      else if isShown c then interrupted opening
      else opened opening
    | command => if c = '\x07' then ground else command
    | device =>
      if isBetween ' ' '/' c then deviceIntermediate
      else if isBetween '0' '?' c then deviceParameters
      else if isBetween '@' '~' c then string
      else device
    | deviceParameters =>
      if isBetween ' ' '/' c then deviceIntermediate
      else if isBetween '<' '~' c then string
      else deviceParameters
    | deviceIntermediate => if isBetween '0' '~' c then string else deviceIntermediate
    | string => if endsString c then ground else string

def SequenceState.shows (state : SequenceState) (c : Char) : Bool :=
  match state with
  | ground | interrupted _ => isShown c
  | opened _ => isLayout c
  | command | device | deviceParameters | deviceIntermediate | string => false

def shownFrom : SequenceState → List Char → List Char
  | _, [] => []
  | state, c :: rest =>
    let shown := shownFrom (state.next c) rest
    if state.shows c then c :: shown else shown

def visible (text : String) : String :=
  String.ofList (shownFrom .ground text.toList)

theorem SequenceState.next_ground {c : Char} (shown : isShown c = true) :
    ground.next c = ground := by
  have notEscape : c ≠ '\x1b' := by
    rintro rfl
    revert shown
    decide
  simp only [next, if_neg notEscape, ite_self]

theorem shownFrom_ground {text : List Char} (shown : ∀ c ∈ text, isShown c = true) :
    shownFrom .ground text = text := by
  induction text with
  | nil => rfl
  | cons c rest ih =>
    have first := shown c List.mem_cons_self
    simp only [shownFrom, SequenceState.next_ground first, SequenceState.shows, first, if_true,
      ih fun d later => shown d (List.mem_cons_of_mem c later)]

theorem SequenceState.isShown_of_shows {state : SequenceState} {c : Char}
    (shows : state.shows c = true) : isShown c = true := by
  cases state with
  | ground | interrupted _ => exact shows
  | opened _ =>
    have layout : isLayout c = true := shows
    rw [isShown, layout, Bool.or_true]
  | _ => cases shows

theorem isShown_of_mem_shownFrom {state : SequenceState} {text : List Char} {c : Char}
    (member : c ∈ shownFrom state text) : isShown c = true := by
  induction text generalizing state with
  | nil => cases member
  | cons first rest ih =>
    rw [shownFrom] at member
    split at member
    next shows =>
      rcases List.mem_cons.mp member with rfl | later
      · exact SequenceState.isShown_of_shows shows
      · exact ih later
    next => exact ih member

/-- What a terminal shows holds nothing more that it would act on. -/
theorem visible_visible (text : String) : visible (visible text) = visible text := by
  have shown : shownFrom .ground (visible text).toList = (visible text).toList := by
    apply shownFrom_ground
    intro c member
    rw [visible, String.toList_ofList] at member
    exact isShown_of_mem_shownFrom member
  rw [visible, shown, String.ofList_toList]

end Lox
