import LittleC.Error
import LittleC.Token.Scan

/-! A cursor stands at a token and sees the tokens after it, the last of which is an end
of file that it never leaves. A `Reading` is what a step of the parser gives: a value
or an error, and the cursor where it ended, which never stands before the one where it
began. A reading of gain one, when it succeeds, has left its first token behind; that is
why every loop of the parser ends. -/
namespace LittleC

/-- The end of file after the last token. -/
structure EndToken where
  value : String
  span : Span
  deriving DecidableEq, Repr

def EndToken.token (e : EndToken) : Token :=
  ⟨.eof, e.value, e.span⟩

structure Cursor where
  /-- The current token and those after it, up to the final end of file. -/
  ahead : List Token
  final : EndToken
  deriving DecidableEq, Repr

namespace Cursor

/-- A cursor at the first of some tokens. If they do not end with an end of file, one is
put where the last of them ends. -/
def ofTokens (tokens : List Token) (file : String) : Cursor :=
  match tokens.getLast? with
  | none => ⟨[], ⟨"EOF", ⟨0, 0, file⟩⟩⟩
  | some t =>
    if t.kind = .eof then ⟨tokens.dropLast, ⟨t.value, t.span⟩⟩
    else ⟨tokens, ⟨"EOF", ⟨t.span.stop, t.span.stop, t.span.file⟩⟩⟩

def current (c : Cursor) : Token :=
  match c.ahead with
  | [] => c.final.token
  | t :: _ => t

def kind (c : Cursor) : TokenKind :=
  c.current.kind

/-- The cursor at the next token; the final end of file is never left. -/
def advance (c : Cursor) : Cursor :=
  ⟨c.ahead.tail, c.final⟩

/-- How many tokens stand before the final end of file. -/
def size (c : Cursor) : Nat :=
  c.ahead.length

/-- Whether the current token is not an end of file. -/
def hasTokens (c : Cursor) : Bool :=
  c.kind != .eof

def position (c : Cursor) : Position :=
  ⟨c.current.span.start, c.current.span.file⟩

/-- The error of a current token that cannot stand here, and why. -/
def unexpected (c : Cursor) (message : String) : Error :=
  .located (.unexpectedTokenDetailed c.current.value message) c.position

/-! ### The order of cursors -/

/-- The first cursor stands where the second does, or after it. -/
structure Follows (d c : Cursor) : Prop where
  final_eq : d.final = c.final
  suffix : d.ahead <:+ c.ahead

theorem Follows.refl (c : Cursor) : c.Follows c :=
  ⟨rfl, List.suffix_refl _⟩

theorem Follows.trans {e d c : Cursor} (h : e.Follows d) (h' : d.Follows c) : e.Follows c :=
  ⟨h.final_eq.trans h'.final_eq, h.suffix.trans h'.suffix⟩

theorem Follows.size_le {d c : Cursor} (h : d.Follows c) : d.size ≤ c.size :=
  h.suffix.length_le

theorem advance_follows (c : Cursor) : c.advance.Follows c :=
  ⟨rfl, List.tail_suffix _⟩

theorem size_advance_le (c : Cursor) : c.advance.size ≤ c.size :=
  c.advance_follows.size_le

theorem size_advance_lt {c : Cursor} (h : c.kind ≠ .eof) : c.advance.size + 1 ≤ c.size := by
  obtain ⟨ahead, final⟩ := c
  cases ahead with
  | nil => simp [kind, current, EndToken.token] at h
  | cons t rest => simp [advance, size]

end Cursor

/-- The outcome of reading from `c`: a value or an error, and the cursor where reading
ended. On success at least `gain` tokens were read. -/
structure Reading (gain : Nat) (α : Type) (c : Cursor) where
  result : Except Error α
  cursor : Cursor
  follows : cursor.Follows c
  progress : ∀ a, result = .ok a → cursor.size + gain ≤ c.size

namespace Reading

variable {α β : Type} {gain gain' : Nat} {c : Cursor}

/-- Fails where it stands. -/
def fail (e : Error) : Reading gain α c :=
  ⟨.error e, c, .refl c, by simp⟩

/-- Reads nothing. -/
def done (a : α) : Reading 0 α c :=
  ⟨.ok a, c, .refl c, by simp⟩

/-- Reads the current token, with a result that depends on it alone. -/
def step (result : Except Error α) : Reading 0 α c :=
  ⟨result, c.advance, c.advance_follows, fun _ _ => c.size_advance_le⟩

def map (f : α → β) (x : Reading gain α c) : Reading gain β c where
  result := x.result.map f
  cursor := x.cursor
  follows := x.follows
  progress := by
    intro b hb
    cases h : x.result with
    | error e => simp [h, Except.map] at hb
    | ok a => exact x.progress a h

/-- The same reading, with no promise that it reads anything. -/
def weaken (x : Reading gain α c) : Reading 0 α c where
  result := x.result
  cursor := x.cursor
  follows := x.follows
  progress := fun _ _ => x.follows.size_le

/-- Reads on from where the first reading ended, if it succeeded. -/
def bind (x : Reading gain α c)
    (f : α → (d : Cursor) → d.size + gain ≤ c.size → Reading gain' β d) : Reading gain β c :=
  match h : x.result with
  | .error e => ⟨.error e, x.cursor, x.follows, by simp⟩
  | .ok a =>
    let y := f a x.cursor (x.progress a h)
    { result := y.result
      cursor := y.cursor
      follows := y.follows.trans x.follows
      progress := fun _ _ => by
        have := x.progress a h
        have := y.follows.size_le
        omega }

/-- A reading that began at the token after the first. -/
def afterFirst {t : Token} {rest : List Token} {final : EndToken}
    (x : Reading gain α ⟨rest, final⟩) : Reading 1 α ⟨t :: rest, final⟩ where
  result := x.result
  cursor := x.cursor
  follows := x.follows.trans ⟨rfl, List.suffix_cons t rest⟩
  progress := by
    intro _ _
    have := x.follows.size_le
    simp only [Cursor.size, List.length_cons] at this ⊢
    omega

/-- A reading that began after the current token, whichever that is. -/
def afterCurrent (x : Reading gain α c.advance) : Reading 0 α c where
  result := x.result
  cursor := x.cursor
  follows := x.follows.trans c.advance_follows
  progress := fun _ _ => Nat.le_trans x.follows.size_le c.size_advance_le

end Reading

namespace Cursor

/-- Reads a token of a kind. -/
def expect (kind : TokenKind) (c : Cursor) : Reading 0 Token c :=
  if c.kind = kind then .step (.ok c.current)
  else .fail (.located (.unexpectedToken c.current.value) c.position)

/-- Reads a token of a kind, or fails with an explanation. -/
def expectOr (kind : TokenKind) (message : String) (c : Cursor) : Reading 0 Token c :=
  if c.kind = kind then .step (.ok c.current) else .fail (c.unexpected message)

/-- Reads a token of a kind other than the end of file, and so leaves it behind. -/
def require (kind : TokenKind) (h : kind ≠ .eof) (c : Cursor) : Reading 1 Token c where
  result := (c.expect kind).result
  cursor := (c.expect kind).cursor
  follows := (c.expect kind).follows
  progress := by
    intro a ha
    unfold expect at ha ⊢
    split
    · rename_i hk
      exact size_advance_lt (by rw [hk]; exact h)
    · rename_i hk
      simp [hk, Reading.fail] at ha

end Cursor
end LittleC
