import LittleC.Parse.Cursor

/-! What a reading yields. `x.Yields a d` says that the reading `x` succeeds with the value
`a` and ends at the cursor `d`, and there is one rule for every way of building a
reading: a reading in steps yields what its steps yield, one after the other.

A cursor is described from where reading ends: `d.before ts` stands in front of `d`, with
the tokens `ts` between them. -/
namespace LittleC

namespace Cursor

/-- The cursor at a token in front of this one. -/
def push (c : Cursor) (t : Token) : Cursor :=
  ⟨t :: c.ahead, c.final⟩

/-- The cursor in front of this one by some tokens. -/
def before (d : Cursor) (ts : List Token) : Cursor :=
  ⟨ts ++ d.ahead, d.final⟩

@[simp] theorem before_nil (d : Cursor) : d.before [] = d := rfl

@[simp] theorem before_cons (d : Cursor) (t : Token) (ts : List Token) :
    d.before (t :: ts) = (d.before ts).push t := rfl

@[simp] theorem before_append (d : Cursor) (ts us : List Token) :
    d.before (ts ++ us) = (d.before us).before ts := by
  simp only [before, List.append_assoc]

@[simp] theorem kind_push (c : Cursor) (t : Token) : (c.push t).kind = t.kind := rfl

@[simp] theorem current_push (c : Cursor) (t : Token) : (c.push t).current = t := rfl

@[simp] theorem advance_push (c : Cursor) (t : Token) : (c.push t).advance = c := rfl

theorem size_lt_push (c : Cursor) (t : Token) : c.size < (c.push t).size :=
  Nat.lt_succ_self _

theorem size_le_before (c : Cursor) (ts : List Token) : c.size ≤ (c.before ts).size := by
  simp [size, before]

/-- Only the final end of file is not left. -/
theorem advance_eq_iff {c d : Cursor} {k : TokenKind} (hc : c.kind = k) (hk : k ≠ .eof) :
    c.advance = d ↔ c = d.push c.current := by
  obtain ⟨ahead, final⟩ := c
  cases ahead with
  | nil => exact absurd hc.symm hk
  | cons t rest =>
    constructor
    · intro h
      rw [← h]
      rfl
    · intro h
      rw [h, advance_push]

theorem eq_push {c : Cursor} {k : TokenKind} (hc : c.kind = k) (hk : k ≠ .eof) :
    c = c.advance.push c.current :=
  (advance_eq_iff hc hk).mp rfl

/-- A cursor stands at the end of file or in front of another one. -/
theorem cases_push (c : Cursor) : c.ahead = [] ∨ ∃ (t : Token) (d : Cursor), c = d.push t := by
  obtain ⟨ahead, final⟩ := c
  cases ahead with
  | nil => exact .inl rfl
  | cons t rest => exact .inr ⟨t, ⟨rest, final⟩, rfl⟩

theorem mem_of_mem_ofTokens {tokens : List Token} {file : String} {t : Token}
    (h : t ∈ (ofTokens tokens file).ahead) : t ∈ tokens := by
  unfold ofTokens at h
  split at h
  · exact absurd h List.not_mem_nil
  · split at h
    · exact (List.dropLast_sublist tokens).subset h
    · exact h

end Cursor

namespace Reading

variable {α β : Type} {gain gain' : Nat} {c d : Cursor}

/-- The reading succeeds with this value and ends here. -/
def Yields (x : Reading gain α c) (a : α) (d : Cursor) : Prop :=
  x.result = .ok a ∧ x.cursor = d

@[simp] theorem yields_done {a b : α} : (done a : Reading 0 α c).Yields b d ↔ a = b ∧ c = d := by
  simp [Yields, done]

@[simp] theorem yields_fail {e : Error} {b : α} : ¬ (fail e : Reading gain α c).Yields b d := by
  simp [Yields, fail]

@[simp] theorem yields_step {r : Except Error α} {b : α} :
    (step r : Reading 0 α c).Yields b d ↔ r = .ok b ∧ c.advance = d := by
  rfl

@[simp] theorem yields_map {f : α → β} {x : Reading gain α c} {b : β} :
    (x.map f).Yields b d ↔ ∃ a, x.Yields a d ∧ f a = b := by
  show x.result.map f = .ok b ∧ x.cursor = d ↔ ∃ a, (x.result = .ok a ∧ x.cursor = d) ∧ f a = b
  cases x.result with
  | error e => simp [Except.map]
  | ok a =>
    constructor
    · rintro ⟨hb, hd⟩
      exact ⟨a, ⟨rfl, hd⟩, Except.ok.inj hb⟩
    · rintro ⟨a', ⟨ha, hd⟩, rfl⟩
      cases ha
      exact ⟨rfl, hd⟩

@[simp] theorem yields_weaken {x : Reading gain α c} {b : α} :
    x.weaken.Yields b d ↔ x.Yields b d := by
  rfl

@[simp] theorem yields_afterFirst {t : Token} {rest : List Token} {final : EndToken}
    {x : Reading gain α ⟨rest, final⟩} {b : α} :
    (x.afterFirst (t := t)).Yields b d ↔ x.Yields b d := by
  rfl

@[simp] theorem yields_afterCurrent {x : Reading gain α c.advance} {b : α} :
    x.afterCurrent.Yields b d ↔ x.Yields b d := by
  rfl

theorem Yields.size_le {x : Reading gain α c} {a : α} (h : x.Yields a d) :
    d.size + gain ≤ c.size := by
  obtain ⟨ha, rfl⟩ := h
  exact x.progress a ha

/-- A reading in two steps yields what the second step yields where the first one ended. -/
@[simp] theorem yields_bind {x : Reading gain α c}
    {f : α → (d : Cursor) → d.size + gain ≤ c.size → Reading gain' β d} {b : β} {e : Cursor} :
    (x.bind f).Yields b e ↔ ∃ a d, ∃ h : x.Yields a d, (f a d h.size_le).Yields b e := by
  constructor
  · intro h
    unfold Yields bind at h
    split at h
    · exact absurd h.1 (by simp)
    · rename_i a ha
      exact ⟨a, x.cursor, ⟨ha, rfl⟩, h⟩
  · rintro ⟨a, d, ⟨ha, rfl⟩, h⟩
    unfold Yields bind
    split
    · rename_i e he
      rw [ha] at he
      cases he
    · rename_i a' ha'
      obtain rfl : a' = a := by simpa [ha] using ha'.symm
      exact h

end Reading

namespace Cursor

/-- Reading a token of a kind that no end of file has. -/
theorem yields_expect {c d : Cursor} {k : TokenKind} (hk : k ≠ .eof) {t : Token} :
    (c.expect k).Yields t d ↔ c = d.push t ∧ t.kind = k := by
  unfold expect
  constructor
  · intro h
    split at h
    · rename_i hc
      simp only [Reading.yields_step, Except.ok.injEq] at h
      obtain ⟨rfl, rfl⟩ := h
      exact ⟨eq_push hc hk, hc⟩
    · exact absurd h Reading.yields_fail
  · rintro ⟨rfl, ht⟩
    rw [if_pos (by rw [kind_push, ht])]
    simp

theorem yields_expectOr {c d : Cursor} {k : TokenKind} (hk : k ≠ .eof) {message : String}
    {t : Token} : (c.expectOr k message).Yields t d ↔ c = d.push t ∧ t.kind = k := by
  rw [← yields_expect hk]
  unfold expectOr expect
  split <;> simp

theorem yields_require {c d : Cursor} {k : TokenKind} (hk : k ≠ .eof) {t : Token} :
    (c.require k hk).Yields t d ↔ c = d.push t ∧ t.kind = k :=
  yields_expect hk

end Cursor
end LittleC
