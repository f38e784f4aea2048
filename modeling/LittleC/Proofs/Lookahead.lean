import LittleC.Proofs.Execution

/-! How far the parser looks. It reads its tokens one by one and stops somewhere, with a program
or with an error; `parseEnd` is the position where it stops. No instruction goes on from an
end of file, so all tokens in front of that position are other tokens (`kind_ne_eof_of_passed`),
and other tokens that are the same up to that position, and at it, are parsed in the same way
(`parse_of_agree`). So the first end of file ends the program, whatever follows it, and one
that is missing is as good as written (`parse_lookahead`). -/
namespace LittleC
open Parse

/-- The position of the token where the parser stops. -/
def parseEnd (ts : List Token) (file : String) : Nat :=
  (Cursor.ofTokens ts file).size - (Parse.program (Cursor.ofTokens ts file)).cursor.size

/-- The end of file where some tokens end. -/
def endToken (ts : List Token) (file : String) : Token :=
  match ts.getLast? with
  | none => Token.endOfFile 0 file
  | some t => Token.endOfFile t.span.stop t.span.file

theorem endToken_kind (ts : List Token) (file : String) : (endToken ts file).kind = .eof := by
  unfold endToken
  split <;> rfl

/-! ### The end of file behind the tokens -/

theorem closed_of_open {ts : List Token} (h : ∀ t ∈ ts.getLast?, t.kind ≠ .eof) (file : String) :
    closed ts file = ts ++ [endToken ts file] := by
  unfold closed Cursor.ofTokens endToken
  cases hlast : ts.getLast? with
  | none =>
    simp [List.getLast?_eq_none_iff.mp hlast, Cursor.tokens, EndToken.token, Token.endOfFile]
  | some t => simp [h t hlast, Cursor.tokens, EndToken.token, Token.endOfFile]

theorem closed_of_eof {ts : List Token} {t : Token} (ht : t.kind = .eof) (file : String) :
    closed (ts ++ [t]) file = ts ++ [t] :=
  Cursor.tokens_ofTokens ht file

/-- The tokens themselves stand in front. -/
theorem closed_eq_append (ts : List Token) (file : String) :
    ∃ more, closed ts file = ts ++ more := by
  cases hlast : ts.getLast? with
  | none => exact ⟨_, closed_of_open (by simp [hlast]) file⟩
  | some t =>
    by_cases ht : t.kind = .eof
    · obtain ⟨init, rfl⟩ := List.getLast?_eq_some_iff.mp hlast
      exact ⟨[], by rw [closed_of_eof ht, List.append_nil]⟩
    · exact ⟨_, closed_of_open (by simp [hlast, ht]) file⟩

theorem getElem?_closed {before rest : List Token} {t : Token} {k : Nat} (hk : k ≤ before.length)
    (file : String) : (closed (before ++ t :: rest) file)[k]? = (before ++ [t])[k]? := by
  obtain ⟨more, heq⟩ := closed_eq_append (before ++ t :: rest) file
  have hlt : k < (before ++ [t]).length := by simpa using Nat.lt_succ_of_le hk
  rw [heq, show before ++ t :: rest ++ more = (before ++ [t]) ++ (rest ++ more) by simp,
    List.getElem?_append_left hlt]

theorem closed_last (ts : List Token) (file : String) :
    ∀ t ∈ (closed ts file).getLast?, t.kind = .eof := by
  simp [closed, Cursor.tokens, EndToken.token]

/-! ### The run of a program -/

/-- The parser comes to its end, and goes on from no end of file. -/
theorem parse_runs (ts : List Token) (file : String) :
    ∃ es, Runs (closed ts file) (.body .program) 0 es (parse ts file) (parseEnd ts file) ∧
      Careful (closed ts file) es := by
  have hstart : (Cursor.ofTokens ts file).At (closed ts file) 0 := rfl
  have htraced : (Parse.program (Cursor.ofTokens ts file)).Traced True (closed ts file) _ :=
    program_traced _
  obtain ⟨es, j, hrun, hj, hcare⟩ := htraced 0 hstart
  have hend : j = parseEnd ts file := by
    have hlen := hstart.length_eq
    have hlen' := hj.length_eq
    unfold parseEnd
    omega
  exact ⟨es, hend ▸ hrun, hcare trivial⟩

theorem parseEnd_lt (ts : List Token) (file : String) :
    parseEnd ts file < (closed ts file).length := by
  obtain ⟨es, hrun, _⟩ := parse_runs ts file
  exact hrun.lt_length (by simp [closed, Cursor.length_tokens])

/-- **What was passed is no end of file.** -/
theorem kind_ne_eof_of_passed {ts : List Token} {file : String} {k : Nat}
    (hk : k < parseEnd ts file) {t : Token} (ht : (closed ts file)[k]? = some t) : t.kind ≠ .eof := by
  obtain ⟨es, hrun, hcare⟩ := parse_runs ts file
  obtain ⟨u, hu, hne⟩ := hcare k (hrun.advance_mem (Nat.zero_le k) hk)
  rw [ht] at hu
  cases hu
  exact hne

/-- **What was not reached does not matter.** -/
theorem parse_of_agree {ts us : List Token} {file file' : String}
    (h : ∀ k ≤ parseEnd ts file, (closed us file')[k]? = (closed ts file)[k]?) :
    parse us file' = parse ts file ∧ parseEnd us file' = parseEnd ts file := by
  obtain ⟨es, hrun, hcare⟩ := parse_runs ts file
  obtain ⟨fs, hrun', _⟩ := parse_runs us file'
  exact ((hrun.agree hcare (closed_last ts file) h).unique hrun').2

/-- The parser does not come past an end of file among its tokens. -/
theorem parseEnd_le {before rest : List Token} {t : Token} (ht : t.kind = .eof) (file : String) :
    parseEnd (before ++ t :: rest) file ≤ before.length := by
  apply Nat.le_of_not_lt
  intro hlt
  refine kind_ne_eof_of_passed hlt ?_ ht
  rw [getElem?_closed (Nat.le_refl _)]
  simp

/-- **The parser looks no further than where it stops.** Tokens that are the same up to there give
the same result and the same end; that end is reached without passing an end of file, so that
nothing behind the first one matters, and where there is none behind the last token, the
parser goes on as if there were. -/
theorem parse_lookahead (ts : List Token) (file : String) :
    parseEnd ts file < (closed ts file).length ∧
    (∀ us file',
      (closed us file').take (parseEnd ts file + 1) = (closed ts file).take (parseEnd ts file + 1) →
      parse us file' = parse ts file ∧ parseEnd us file' = parseEnd ts file) ∧
    (∀ t ∈ (closed ts file).take (parseEnd ts file), t.kind ≠ .eof) ∧
    (∀ before t rest rest' file', ts = before ++ t :: rest → t.kind = .eof →
      parse (before ++ t :: rest') file' = parse ts file ∧
        parseEnd (before ++ t :: rest') file' = parseEnd ts file) ∧
    ((∀ t ∈ ts.getLast?, t.kind ≠ .eof) → closed ts file = ts ++ [endToken ts file] ∧
      parse (ts ++ [endToken ts file]) file = parse ts file ∧
        parseEnd (ts ++ [endToken ts file]) file = parseEnd ts file) := by
  refine ⟨parseEnd_lt ts file, fun us file' h => ?_, fun t ht => ?_,
    fun before t rest rest' file' hts ht => ?_, fun h => ?_⟩
  · refine parse_of_agree fun k hk => ?_
    have hlt : k < parseEnd ts file + 1 := Nat.lt_succ_of_le hk
    rw [← List.getElem?_take_of_lt hlt, h, List.getElem?_take_of_lt hlt]
  · obtain ⟨k, hk⟩ := List.mem_iff_getElem?.mp ht
    rw [List.getElem?_take] at hk
    split at hk
    · rename_i hlt
      exact kind_ne_eof_of_passed hlt hk
    · cases hk
  · subst hts
    refine parse_of_agree fun k hk => ?_
    have hle := Nat.le_trans hk (parseEnd_le ht file)
    rw [getElem?_closed hle, getElem?_closed hle]
  · have hclosed := closed_of_open h file
    refine ⟨hclosed, parse_of_agree fun k _ => ?_⟩
    rw [closed_of_eof (endToken_kind ts file), hclosed]

end LittleC
