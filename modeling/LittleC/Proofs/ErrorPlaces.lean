import Mathlib
import LittleC.Lowering.Stmt
import LittleC.Proofs.Blame
import LittleC.Proofs.LinePlaces

/-! Which errors have a place in the source. Scanning fails at a character and parsing at a
token, so their errors point into the source and a diagnostic shows them there; lowering has
only the program, and its errors have no position.

`front_errors_shown` says both: it puts together where tokens stand, at which token parsing
fails, and how a place is shown. -/
namespace LittleC
open Text (byteLength byteLength_append)

/-! ### Lowering -/

/-- Whatever fails here fails without a position. -/
def Unlocated {α : Type} (x : Except Error α) : Prop :=
  ∀ e, x = .error e → e.position = none

theorem unlocated_ok {α : Type} (a : α) : Unlocated (.ok a) := by
  intro e he
  cases he

theorem unlocated_error {α : Type} (cause : Cause) :
    Unlocated (.error (.unlocated cause) : Except Error α) := by
  intro e he
  cases he
  rfl

theorem Unlocated.bind {α β : Type} {x : Except Error α} {f : α → Except Error β}
    (hx : Unlocated x) (hf : ∀ a, Unlocated (f a)) : Unlocated (x >>= f) := by
  intro e he
  cases x with
  | error e' =>
    cases he
    exact hx _ rfl
  | ok a => exact hf a e he

namespace Expr

theorem combine_unlocated (op : BinaryOp) (left right : Expr) (l r : Lowered) :
    Unlocated (combine op left right l r) := by
  rw [combine]
  split
  · exact unlocated_ok _
  · exact unlocated_error _

theorem apply_unlocated (callee : String) (signature : Signature) (args : List Lowered) :
    Unlocated (apply callee signature args) := by
  rw [apply]
  split
  · exact unlocated_error _
  · exact unlocated_error _
  · exact unlocated_ok _

theorem store_unlocated (target : String) (type : Ty) (value : Lowered) :
    Unlocated (store target type value) := by
  rw [store]
  split
  · exact unlocated_ok _
  · exact unlocated_error _

mutual
theorem lower_unlocated (scope : Scope) (e : Expr) : Unlocated (e.lower scope) := by
  cases e with
  | binary op left right =>
    rw [lower]
    exact (lower_unlocated scope left).bind fun l => (lower_unlocated scope right).bind fun r =>
      combine_unlocated op left right l r
  | symbol name =>
    rw [lower]
    split
    · exact unlocated_ok _
    · exact unlocated_error _
  | call callee arguments =>
    rw [lower]
    split
    · exact (lowerAll_unlocated scope arguments).bind fun args => apply_unlocated _ _ args
    · exact unlocated_error _
  | assign target value =>
    rw [lower]
    split
    · exact (lower_unlocated scope value).bind fun v => store_unlocated _ _ v
    · exact unlocated_error _
  | _ =>
    rw [lower]
    exact unlocated_ok _

theorem lowerAll_unlocated (scope : Scope) (es : List Expr) : Unlocated (lowerAll scope es) := by
  cases es with
  | nil =>
    rw [lowerAll]
    exact unlocated_ok _
  | cons e rest =>
    rw [lowerAll]
    exact (lower_unlocated scope e).bind fun _ => (lowerAll_unlocated scope rest).bind fun _ =>
      unlocated_ok _
end

end Expr

namespace Stmt

mutual
theorem lower_unlocated (scope : Scope) (indent : String) (s : Stmt) :
    Unlocated (s.lower scope indent) := by
  cases s with
  | function name signature body =>
    rw [lower]
    exact (lowerAll_unlocated _ _ body).bind fun _ => unlocated_ok _
  | conditional condition body otherwise =>
    cases otherwise with
    | none =>
      rw [lower]
      exact (condition.lower_unlocated _).bind fun _ => (lowerAll_unlocated _ _ body).bind fun _ =>
        unlocated_ok _
    | some otherwise =>
      rw [lower]
      exact (condition.lower_unlocated _).bind fun _ => (lowerAll_unlocated _ _ body).bind fun _ =>
        (lowerAll_unlocated _ _ otherwise).bind fun _ => unlocated_ok _
  | loop initial condition step body =>
    rw [lower]
    exact (lower_unlocated _ _ initial).bind fun _ => (condition.lower_unlocated _).bind fun _ =>
      (step.lower_unlocated _).bind fun _ => (lowerAll_unlocated _ _ body).bind fun _ =>
        unlocated_ok _
  | ret value =>
    cases value with
    | none =>
      rw [lower]
      exact unlocated_ok _
    | some value =>
      rw [lower]
      exact (value.lower_unlocated _).bind fun _ => unlocated_ok _
  | declare name value =>
    rw [lower]
    exact (value.lower_unlocated _).bind fun _ => unlocated_ok _
  | call callee arguments =>
    rw [lower]
    exact (Expr.lower_unlocated _ _).bind fun _ => unlocated_ok _
  | assign target value =>
    rw [lower]
    exact (Expr.lower_unlocated _ _).bind fun _ => unlocated_ok _
  | _ =>
    rw [lower]
    exact unlocated_ok _

theorem lowerAll_unlocated (scope : Scope) (indent : String) (body : List Stmt) :
    Unlocated (lowerAll scope indent body) := by
  cases body with
  | nil =>
    rw [lowerAll]
    exact unlocated_ok _
  | cons s rest =>
    rw [lowerAll]
    exact (lower_unlocated _ _ s).bind fun _ => (lowerAll_unlocated _ _ rest).bind fun _ =>
      unlocated_ok _
end

end Stmt

theorem Program.lower_unlocated (p : Program) : Unlocated p.lower :=
  (Stmt.lowerAll_unlocated .root "" p).bind fun _ => unlocated_ok _

/-! ### Scanning and parsing -/

/-- The offset is between two characters of a text, or at one of its ends. -/
def Text.Boundary (cs : List Char) (offset : Nat) : Prop :=
  ∃ front back, cs = front ++ back ∧ byteLength front = offset

theorem Tiling.boundary {file : String} {cs : List Char} {ts : List Token} (h : Tiling file cs ts) :
    ∀ t ∈ ts, Text.Boundary cs t.span.start := by
  intro t ht
  by_cases hk : t.kind = .eof
  · obtain ⟨us, rfl, hus⟩ := h.ended
    rcases List.mem_append.mp ht with ht | ht
    · exact absurd hk (hus t ht)
    · rw [List.mem_singleton.mp ht]
      exact ⟨cs, [], by simp, rfl⟩
  · obtain ⟨_, ⟨before, after, hcs, hstart, _⟩, _⟩ := h.covered t ht hk
    exact ⟨before, t.written ++ after, hcs, hstart⟩

/-- An offset that an error of a source points at: that of a character that begins no token,
or the start of a token. -/
def ErrorSite (source file : String) (e : Error) (offset : Nat) : Prop :=
  (∃ before c rest, source.toList = before ++ c :: rest ∧ byteLength before = offset ∧
      e.cause = .unrecognisedToken c.toString ∧
      ∀ rule ∈ ScanRule.all, rule.length? (c :: rest) = none) ∨
    ∃ ts t, scan source file = .ok ts ∧ t ∈ ts ∧ t.span.start = offset

theorem ErrorSite.boundary {source file : String} {e : Error} {offset : Nat}
    (h : ErrorSite source file e offset) : Text.Boundary source.toList offset := by
  rcases h with ⟨before, c, rest, hcs, hoffset, _⟩ | ⟨ts, t, hts, ht, rfl⟩
  · exact ⟨before, c :: rest, hcs, hoffset⟩
  · exact (tiling_of_scan hts).boundary t ht

theorem parseSource_errorSite {source file : String} {e : Error}
    (h : parseSource source file = .error e) :
    ∃ offset, e.position = some ⟨offset, file⟩ ∧ ErrorSite source file e offset := by
  rw [parseSource] at h
  cases hscan : scan source file with
  | error e' =>
    rw [hscan] at h
    cases h
    obtain ⟨before, c, rest, hcs, rfl, _, hnone⟩ := stuckAt_of_scan hscan
    exact ⟨_, rfl, .inl ⟨before, c, rest, hcs, rfl, rfl, hnone⟩⟩
  | ok ts =>
    rw [hscan] at h
    have htiling := tiling_of_scan hscan
    obtain ⟨us, hus, _⟩ := htiling.ended
    obtain ⟨t, ht, hposition⟩ := parse_blames h
    rw [hus, Cursor.tokens_ofTokens rfl, ← hus] at ht
    rw [htiling.file_eq t ht] at hposition
    exact ⟨_, hposition, .inr ⟨ts, t, hscan, ht, rfl⟩⟩

/-- An error is shown in its source: its position is in that file and inside the text, the
offset has a line, and every diagnostic has the lines around it and the caret line, with as
many characters before the caret as there are in the line before the offset. -/
structure ShownAt (source file : String) (e : Error) (offset : Nat) : Prop where
  position : e.position = some ⟨offset, file⟩
  inside : offset ≤ source.utf8ByteSize ∧ offset < offsetLimit
  boundary : Text.Boundary source.toList offset
  site : ErrorSite source file e offset
  shown : ∃ place left right, Text.placeAt source.toList offset = some place ∧
    Text.Stands source.toList 1 offset place ∧
    place.line = left ++ right ∧ byteLength left = place.offset ∧
    ∀ colour name, Diagnostic.render colour e source name =
      String.intercalate "\n"
        (Diagnostic.locatedLines colour e source name place.number left.length) ++ "\n"

theorem shownAt_of_site {source file : String} {e : Error} {offset : Nat}
    (hsize : source.utf8ByteSize < offsetLimit) (hposition : e.position = some ⟨offset, file⟩)
    (hsite : ErrorSite source file e offset) : ShownAt source file e offset := by
  obtain ⟨front, back, hcs, rfl⟩ := hsite.boundary
  have hle : byteLength front ≤ byteLength source.toList := by
    rw [hcs, byteLength_append]
    exact Nat.le_add_right _ _
  obtain ⟨place, hplace, hstands⟩ := Text.placeAt_stands hle
  obtain ⟨left, right, hline, hleft, hcolumn⟩ := (hcs ▸ hstands).column
  have hplace? : Diagnostic.place? e source = some place := by
    rw [Diagnostic.place?, hposition]
    exact hplace
  have hnumber : 1 ≤ place.number := by
    obtain ⟨_, _, _, _, hnumber, _⟩ := hstands
    omega
  rw [Text.byteLength_toList] at hle
  refine ⟨hposition, ⟨hle, Nat.lt_of_le_of_lt hle hsize⟩, hsite.boundary, hsite,
    place, left, right, hplace, hstands, hline, hleft, fun colour name => ?_⟩
  rw [Diagnostic.render_located hplace? hnumber, hcolumn]

/-- **Errors of a source can be shown in it.** If a source whose offsets fit 32 bits does not
parse, the error has a position in it, at the character that begins no token or at the start
of a token, and every diagnostic of the error shows that place. The errors of lowering have
no position. -/
theorem front_errors_shown :
    (∀ source file e, source.utf8ByteSize < offsetLimit → parseSource source file = .error e →
      ∃ offset, ShownAt source file e offset) ∧
    ∀ (p : Program) e, p.lower = .error e → e.position = none := by
  refine ⟨fun source file e hsize h => ?_, fun p => p.lower_unlocated⟩
  obtain ⟨offset, hposition, hsite⟩ := parseSource_errorSite h
  exact ⟨offset, shownAt_of_site hsize hposition hsite⟩

/-- A call without its semicolon, the end of the source on the empty line below it. -/
def unfinished : String :=
  "f(\"é\")\n"

def unfinishedError : Error :=
  .located (.unexpectedToken "EOF") ⟨8, "main.lc"⟩

theorem front_errors_shown_unfinished :
    unfinished.utf8ByteSize < offsetLimit ∧
      parseSource unfinished "main.lc" = .error unfinishedError ∧
      (∃ offset, ShownAt unfinished "main.lc" unfinishedError offset) ∧
      Program.lower [.ret (some (.symbol "x"))] = .error (.unlocated (.undefinedSymbol "x")) ∧
      (Error.unlocated (.undefinedSymbol "x")).position = none := by
  have hsize : unfinished.utf8ByteSize < offsetLimit := by decide
  have hparse : parseSource unfinished "main.lc" = .error unfinishedError := by cbv
  have hlower : Program.lower [.ret (some (.symbol "x"))] =
      .error (.unlocated (.undefinedSymbol "x")) := by cbv
  exact ⟨hsize, hparse, front_errors_shown.1 _ _ _ hsize hparse, hlower,
    front_errors_shown.2 _ _ hlower⟩

end LittleC
