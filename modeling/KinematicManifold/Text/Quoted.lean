import KinematicManifold.Text.Printable

/-!
# Quoted names and listings

How a list of names, of indices or of sizes is written inside a message.

A name is quoted so that its end can be seen: between single quotes, or between double quotes if
it holds a single quote and no double one. Inside, a backslash, the surrounding quote and the
characters that are not printable are escaped; every other character stands for itself.

Main statements:
- `escape_eq_self`: text without anything to escape is written as it stands;
- `quote_of_plain`: such a name, if it holds no single quote either, stands between single quotes.
-/

namespace KinematicManifold.Text

/-- The lower-case hexadecimal digit of a number below sixteen. -/
private def hexDigit (n : Nat) : Char := (Nat.digitChar n).toLower

/-- The last `count` hexadecimal digits of a number. -/
def hexDigits : (count : Nat) → Nat → List Char
  | 0, _ => []
  | count + 1, n => hexDigits count (n / 16) ++ [hexDigit (n % 16)]

/-- The number of a character that is not printable: two, four or eight digits behind a letter that
tells how many. -/
def escapeNumber (n : Nat) : List Char :=
  if n < 0x100 then 'x' :: hexDigits 2 n
  else if n < 0x10000 then 'u' :: hexDigits 4 n
  else 'U' :: hexDigits 8 n

/-- The written form of one character between the given quotes. -/
def escapeChar (quote c : Char) : List Char :=
  if c = quote || c = '\\' then ['\\', c]
  else if c = '\n' then ['\\', 'n']
  else if c = '\r' then ['\\', 'r']
  else if c = '\t' then ['\\', 't']
  else if isPrintable c then [c]
  else '\\' :: escapeNumber c.toNat

/-- The written form of a name between the given quotes. -/
def escape (quote : Char) (name : List Char) : List Char := name.flatMap (escapeChar quote)

/-- The quote a name is written between. -/
def quoteFor (name : List Char) : Char :=
  if name.contains '\'' && !name.contains '"' then '"' else '\''

/-- A name between its quotes. -/
def quote (name : String) : String :=
  let q := quoteFor name.toList
  String.ofList (q :: escape q name.toList ++ [q])

/-- Items between square brackets, separated by a comma and a blank. -/
def bracketed (items : List String) : String := "[" ++ ", ".intercalate items ++ "]"

/-- A list of names, each quoted. -/
def quotedList (names : List String) : String := bracketed (names.map quote)

/-- A list of indices. -/
def indexList (indices : List Nat) : String := bracketed (indices.map toString)

/-- The sizes of an array along its axes, between parentheses. A single size is followed by a
comma, so that it does not read as a number in parentheses. -/
def shape : List Nat → String
  | [] => "()"
  | [size] => s!"({size},)"
  | sizes => "(" ++ ", ".intercalate (sizes.map toString) ++ ")"

/-! ## What needs no escape -/

/-- Holds of a character that is written as itself between the given quotes. -/
def IsPlain (quote c : Char) : Prop := c ≠ quote ∧ c ≠ '\\' ∧ isPrintable c = true

/-- A plain character stands for itself. -/
theorem escapeChar_of_plain {quote c : Char} (h : IsPlain quote c) :
    escapeChar quote c = [c] := by
  obtain ⟨hq, hb, hc⟩ := h
  have control {d : Char} (hd : d.toNat < 0x20) : c ≠ d := by
    rintro rfl
    simp [isPrintable_eq_false_of_control hd] at hc
  have hn : c ≠ '\n' := control (by decide)
  have hr : c ≠ '\r' := control (by decide)
  have ht : c ≠ '\t' := control (by decide)
  simp [escapeChar, hq, hb, hn, hr, ht, hc]

/-- Nothing is escaped in a name of plain characters. -/
theorem escape_eq_self {quote : Char} {name : List Char} (h : ∀ c ∈ name, IsPlain quote c) :
    escape quote name = name := by
  induction name with
  | nil => rfl
  | cons c rest ih =>
    simp only [List.mem_cons, forall_eq_or_imp] at h
    simp only [escape, List.flatMap_cons, escapeChar_of_plain h.1] at ih ⊢
    rw [ih h.2]
    rfl

/-- A name of plain characters is quoted by putting it between apostrophes. -/
theorem quote_of_plain {name : String} (h : ∀ c ∈ name.toList, IsPlain '\'' c) :
    quote name = String.ofList ('\'' :: name.toList ++ ['\'']) := by
  have hm : '\'' ∉ name.toList := fun hm => (h _ hm).1 rfl
  have hq : quoteFor name.toList = '\'' := by simp [quoteFor, hm]
  simp [quote, hq, escape_eq_self h]

end KinematicManifold.Text
