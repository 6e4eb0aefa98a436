import ChipEight.Console.Keyboard
import ChipEight.Text.Decimal

/-!
# Key reports

Most consoles hand over typed characters.  One that knows when a key goes up reports every motion of
a key as `ESC [ code ; modifiers : motion u`, in decimal numbers: the code of the key's character,
one more than a sum in which the Ctrl key counts four, and 1 for a key that goes down, 2 for one that
is down and repeats and 3 for one that goes up.  The modifiers or the motion may be missing.

`KeyEvent.readAll` reads what a console hands over.  A text without the escape character is typed
character by character (`readAll_of_not_mem`).
-/

namespace ChipEight

namespace KeyReport

/-- The character that starts a report. -/
def escape : Char := '\x1b'

/-- The text up to a separator, and the text after it. -/
def cut (separator : Char) (text : List Char) : List Char × List Char :=
  (text.takeWhile (· != separator), (text.dropWhile (· != separator)).drop 1)

/-- The key with this code. -/
def code (n : Nat) : KeyCode :=
  if n = 0x1B then .escape
  else if n < 0x20 ∨ n = 0x7F then .other
  else .char (Char.ofNat n)

/-- The motion with this number. -/
def motion : Nat → KeyMotion
  | 2 => .again
  | 3 => .release
  | _ => .press

/-- The event that the numbers of a report stand for. -/
def event? (numbers : List Char) : Option KeyEvent :=
  let fields := cut ';' numbers
  let details := cut ':' (cut ';' fields.2).1
  (Decimal.value? fields.1).map fun n =>
    match Decimal.value? details.1 with
    | some m => ⟨code n, (m - 1) / 4 % 2 = 1, motion ((Decimal.value? details.2).getD 1)⟩
    | none => ⟨code n, false, .press⟩

/-- Whether a report can begin like this. -/
def begins : List Char → Bool
  | [c] => c == escape
  | c :: '[' :: numbers =>
    c == escape && numbers.all fun d => (Decimal.digitValue? d).isSome || d == ';' || d == ':'
  | _ => false

/-- The event of a whole report. -/
def whole? : List Char → Option KeyEvent
  | c :: '[' :: numbers =>
    if c = escape ∧ numbers.getLast? = some 'u' then event? numbers.dropLast else none
  | _ => none

end KeyReport

namespace KeyEvent

/-- Reads on after the beginning of a report.  If none comes of it, its characters were typed. -/
def readFrom (begun : List Char) : List Char → List KeyEvent
  | [] => begun.map ofTyped
  | c :: rest =>
    let text := begun ++ [c]
    if KeyReport.begins text then readFrom text rest
    else
      match KeyReport.whole? text with
      | some e => e :: readFrom [] rest
      | none =>
        if c = KeyReport.escape then begun.map ofTyped ++ readFrom [c] rest
        else text.map ofTyped ++ readFrom [] rest

/-- The events that a console hands over. -/
def readAll (text : List Char) : List KeyEvent := readFrom [] text

theorem readAll_of_not_mem {text : List Char} (h : KeyReport.escape ∉ text) :
    readAll text = text.map ofTyped := by
  unfold readAll
  induction text with
  | nil => rfl
  | cons c rest ih =>
    rw [List.mem_cons, not_or] at h
    have hbegins : KeyReport.begins [c] = false := beq_eq_false_iff_ne.2 (Ne.symm h.1)
    rw [readFrom, List.nil_append]
    simp only [hbegins, Bool.false_eq_true, if_false, KeyReport.whole?, if_neg (Ne.symm h.1), ih h.2]
    rfl

/-- Key 1 goes down and up again, and Ctrl-C is typed. -/
example : readAll "\x1b[49;1u\x1b[49;1:3u\x03".toList =
    [⟨.char '1', false, .press⟩, ⟨.char '1', false, .release⟩, ⟨.char 'c', true, .press⟩] := by
  decide +kernel

end KeyEvent

end ChipEight
