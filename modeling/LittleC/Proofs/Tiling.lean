import LittleC.Proofs.Matching

/-! Where the tokens of a source stand. `Tiled` cuts a text into gaps and written tokens,
each token with the bytes it covers, and the end of file behind the last gap; it does not
mention the rules of scanning.

`scan_tiles`: a source that is scanned is tiled by its tokens, so nothing of it is lost and
no offset is wrong; one that is not scanned has a character at which no rule matches, and
scanning finds all that stands before it. -/
namespace LittleC

/-! ### Stretches of a text -/

namespace Text

theorem byteLength_toList (s : String) : byteLength s.toList = s.utf8ByteSize := by
  have hsize : ∀ cs : List Char, byteLength cs = (String.ofList cs).utf8ByteSize := by
    intro cs
    induction cs with
    | nil => rfl
    | cons c cs ih =>
      rw [byteLength, ih, String.ofList_cons, String.utf8ByteSize_append,
        String.utf8ByteSize_singleton]
  rw [hsize, String.ofList_toList]

theorem byteLength_pos {cs : List Char} (h : cs ≠ []) : 0 < byteLength cs := by
  cases cs with
  | nil => exact absurd rfl h
  | cons c cs => exact Nat.add_pos_left c.utf8Size_pos _

/-- These characters stand in a text from one byte offset up to another. So both offsets
are inside the text and between characters. -/
def Between (cs : List Char) (start stop : Nat) (w : List Char) : Prop :=
  ∃ before after, cs = before ++ (w ++ after) ∧ byteLength before = start ∧
    start + byteLength w = stop

theorem Between.stop_le {cs : List Char} {start stop : Nat} {w : List Char}
    (h : Between cs start stop w) : stop ≤ byteLength cs := by
  obtain ⟨before, after, rfl, rfl, rfl⟩ := h
  rw [byteLength_append, byteLength_append]
  omega

end Text

open Text (byteLength byteLength_append Between)

/-- The first offset that does not fit 32 bits. -/
def offsetLimit : Nat := 4294967296

/-! ### Tiled texts -/

theorem Gap.append {a b : List Char} (ha : Gap a) (hb : Gap b) : Gap (a ++ b) := by
  induction ha with
  | nil => exact hb
  | blank hc _ ih => exact .blank hc ih
  | @comment body cs hbody _ ih =>
    rw [List.cons_append, List.cons_append, List.append_assoc, List.cons_append]
    exact .comment hbody ih

theorem Gap.blanks {w : List Char} (h : ∀ c ∈ w, Text.isBlank c = true) : Gap w := by
  induction w with
  | nil => exact .nil
  | cons c cs ih =>
    exact .blank (h c (List.mem_cons_self ..)) (ih fun d hd => h d (List.mem_cons_of_mem c hd))

/-- A gap and then a comment that the text ends in. -/
def OpenComment (cs : List Char) : Prop :=
  ∃ gap body, cs = gap ++ '/' :: '/' :: body ∧ Gap gap ∧ '\n' ∉ body

/-- The text, which begins at an offset, is cut into these tokens and the gaps in front of
them; the end of file stands behind everything. -/
inductive Tiled (file : String) : Nat → List Char → List Token → Prop where
  | last {offset : Nat} {gap : List Char} : Gap gap ∨ OpenComment gap →
      Tiled file offset gap [Token.endOfFile (offset + byteLength gap) file]
  | token {offset : Nat} {k : TokenKind} {v : String} {gap w cs : List Char} {ts : List Token} :
      Gap gap → Lexeme k v w → Tiled file (offset + byteLength gap + byteLength w) cs ts →
      Tiled file offset (gap ++ (w ++ cs))
        (⟨k, v, ⟨offset + byteLength gap, offset + byteLength gap + byteLength w, file⟩⟩ :: ts)

/-- A gap can be put in front of a tiled text. -/
theorem Tiled.after_gap {file : String} {offset : Nat} {gap cs : List Char} {ts : List Token}
    (hgap : Gap gap) (h : Tiled file (offset + byteLength gap) cs ts) :
    Tiled file offset (gap ++ cs) ts := by
  cases h with
  | last hlast =>
    rw [Nat.add_assoc, ← byteLength_append]
    refine .last (hlast.imp hgap.append ?_)
    rintro ⟨front, body, rfl, hfront, hbody⟩
    exact ⟨gap ++ front, body, (List.append_assoc ..).symm, hgap.append hfront, hbody⟩
  | token hgap' hw hrest =>
    rw [← List.append_assoc, Nat.add_assoc offset, ← byteLength_append] at *
    exact .token (hgap.append hgap') hw hrest

/-! ### What scanning meets -/

/-- What a text begins with, as scanning sees it. -/
inductive Ahead : List Char → Prop where
  | nothing : Ahead []
  | stuck {c : Char} {cs : List Char} : ScanRule.first? (c :: cs) = none → Ahead (c :: cs)
  | gap {gap rest : List Char} : gap ≠ [] → Gap gap → Ahead (gap ++ rest)
  | comment {body : List Char} {rule : ScanRule} : '\n' ∉ body →
      ScanRule.first? ('/' :: '/' :: body) = some (rule, body.length + 2) →
      rule.token? ('/' :: '/' :: body) = none → Ahead ('/' :: '/' :: body)
  | token {k : TokenKind} {v : String} {w rest : List Char} {rule : ScanRule} : Lexeme k v w →
      ScanRule.first? (w ++ rest) = some (rule, w.length) → rule.token? w = some (k, v) →
      Ahead (w ++ rest)

theorem ahead (cs : List Char) : Ahead cs := by
  cases hfirst : ScanRule.first? cs with
  | none =>
    cases cs with
    | nil => exact .nothing
    | cons c cs => exact .stuck hfirst
  | some found =>
    obtain ⟨rule, n⟩ := found
    obtain ⟨w, rest, rfl, rfl, htakes⟩ := ScanRule.first?_takes hfirst
    rcases htakes.lexeme_or_skipped with ⟨k, v, htoken, hw⟩ | ⟨hnone, hskip⟩
    · exact .token hw hfirst htoken
    · cases hskip with
      | blanks hne hw => exact .gap hne (.blanks hw)
      | @comment body hbody hr =>
        cases rest with
        | nil =>
          rw [List.append_nil] at hfirst ⊢
          exact .comment hbody hfirst hnone
        | cons c rest =>
          obtain rfl : c = '\n' := hr c rfl
          have hline : Gap ('/' :: '/' :: (body ++ '\n' :: [])) := .comment hbody .nil
          have hahead : Ahead ('/' :: '/' :: (body ++ '\n' :: []) ++ rest) :=
            .gap (List.cons_ne_nil _ _) hline
          simpa using hahead

section
variable (file : String) (offset : Nat)

theorem scanFrom_nil : scanFrom file offset [] = .ok [Token.endOfFile offset file] := by
  rw [scanFrom]

theorem scanFrom_stuck {c : Char} {cs : List Char} (h : ScanRule.first? (c :: cs) = none) :
    scanFrom file offset (c :: cs) =
      .error (.located (.unrecognisedToken c.toString) ⟨offset, file⟩) := by
  rw [scanFrom, h]

theorem scanFrom_openComment {body : List Char} {rule : ScanRule}
    (h : ScanRule.first? ('/' :: '/' :: body) = some (rule, body.length + 2))
    (hnone : rule.token? ('/' :: '/' :: body) = none) :
    scanFrom file offset ('/' :: '/' :: body) =
      .ok [Token.endOfFile (offset + byteLength ('/' :: '/' :: body)) file] := by
  have hfirst : ScanRule.first? ('/' :: '/' :: body ++ []) =
      some (rule, ('/' :: '/' :: body).length) := by rwa [List.append_nil]
  have hskip := scanFrom_skipped file offset (List.cons_ne_nil _ _) hfirst hnone
  rwa [List.append_nil, scanFrom_nil] at hskip

/-- Scanning takes a token and goes on behind it. -/
theorem scanFrom_token {k : TokenKind} {v : String} {w rest : List Char} {rule : ScanRule}
    (hw : Lexeme k v w) (h : ScanRule.first? (w ++ rest) = some (rule, w.length))
    (htoken : rule.token? w = some (k, v)) :
    scanFrom file offset (w ++ rest) = (scanFrom file (offset + byteLength w) rest).map
      (⟨k, v, ⟨offset, offset + byteLength w, file⟩⟩ :: ·) := by
  rw [scanFrom_match file offset hw.ne_nil h, htoken]

end

theorem length_lt_append {w : List Char} (h : w ≠ []) (rest : List Char) :
    rest.length < (w ++ rest).length := by
  simpa using List.length_pos_iff.mpr h

/-- What is scanned is tiled by its tokens. -/
theorem tiled_of_scanFrom (file : String) (offset : Nat) (cs : List Char) {ts : List Token}
    (h : scanFrom file offset cs = .ok ts) : Tiled file offset cs ts := by
  cases ahead cs with
  | nothing =>
    rw [scanFrom_nil] at h
    cases h
    exact .last (.inl .nil)
  | stuck hnone =>
    rw [scanFrom_stuck file offset hnone] at h
    cases h
  | @gap gap rest hne hgap =>
    rw [scanFrom_gap file offset hgap] at h
    have hshort := length_lt_append hne rest
    exact (tiled_of_scanFrom file _ rest h).after_gap hgap
  | comment hbody hfirst hnone =>
    rw [scanFrom_openComment file offset hfirst hnone] at h
    cases h
    exact .last (.inr ⟨[], _, rfl, .nil, hbody⟩)
  | @token k v w rest rule hw hfirst htoken =>
    rw [scanFrom_token file offset hw hfirst htoken] at h
    have hshort := length_lt_append hw.ne_nil rest
    cases hrest : scanFrom file (offset + byteLength w) rest with
    | error e =>
      rw [hrest] at h
      cases h
    | ok us =>
      rw [hrest] at h
      cases h
      exact .token .nil hw (tiled_of_scanFrom file _ rest hrest)
termination_by cs.length

/-- Scanning fails at a character where no rule matches, and what stands before it can be
scanned by itself. -/
theorem scanFrom_eq_error (file : String) (offset : Nat) (cs : List Char) {e : Error}
    (h : scanFrom file offset cs = .error e) : ∃ before c rest, cs = before ++ c :: rest ∧
      e = .located (.unrecognisedToken c.toString) ⟨offset + byteLength before, file⟩ ∧
      ScanRule.first? (c :: rest) = none ∧ ∃ ts, scanFrom file offset before = .ok ts := by
  cases ahead cs with
  | nothing =>
    rw [scanFrom_nil] at h
    cases h
  | @stuck c rest hnone =>
    rw [scanFrom_stuck file offset hnone] at h
    cases h
    exact ⟨[], c, rest, rfl, rfl, hnone, _, scanFrom_nil file offset⟩
  | @gap gap rest hne hgap =>
    rw [scanFrom_gap file offset hgap] at h
    have hshort := length_lt_append hne rest
    obtain ⟨before, c, rest, rfl, rfl, hnone, ts, hts⟩ := scanFrom_eq_error file _ rest h
    refine ⟨gap ++ before, c, rest, by simp, by rw [byteLength_append, Nat.add_assoc], hnone, ts, ?_⟩
    rw [scanFrom_gap file offset hgap, hts]
  | comment hbody hfirst hnone =>
    rw [scanFrom_openComment file offset hfirst hnone] at h
    cases h
  | @token k v w rest rule hw hfirst htoken =>
    rw [scanFrom_token file offset hw hfirst htoken] at h
    have hshort := length_lt_append hw.ne_nil rest
    cases hrest : scanFrom file (offset + byteLength w) rest with
    | ok us =>
      rw [hrest] at h
      cases h
    | error e =>
      rw [hrest] at h
      cases h
      obtain ⟨before, c, rest, rfl, rfl, hnone, ts, hts⟩ := scanFrom_eq_error file _ rest hrest
      have hcut := ScanRule.first?_cut hfirst (List.prefix_append before (c :: rest))
      refine ⟨w ++ before, c, rest, by simp, by rw [byteLength_append, Nat.add_assoc], hnone, ?_⟩
      rw [scanFrom_token file offset hw hcut htoken, hts]
      exact ⟨_, rfl⟩
termination_by cs.length

/-! ### The bytes that tokens cover -/

/-- The characters of a token in its source: the value, in its delimiters if it has them. -/
def Token.written (t : Token) : List Char :=
  match t.kind with
  | .string => '"' :: (t.value.toList ++ ['"'])
  | .rawCode => '\x60' :: (t.value.toList ++ ['\x60'])
  | _ => t.value.toList

/-- Neither the end of file nor a kind with delimiters. -/
def TokenKind.isPlain : TokenKind → Bool
  | .eof | .string | .rawCode => false
  | _ => true

theorem isPlain_keyword : ∀ t ∈ keywords, t.1.isPlain = true := by
  decide

theorem isPlain_punctuation : ∀ t ∈ punctuation, t.1.isPlain = true := by
  decide

theorem Token.written_of_isPlain {t : Token} (h : t.kind.isPlain = true) :
    t.written = t.value.toList := by
  unfold written
  cases hk : t.kind <;> simp_all [TokenKind.isPlain]

/-- A token is written with its value in its delimiters. -/
theorem Lexeme.eq_written {k : TokenKind} {v : String} {w : List Char} (h : Lexeme k v w)
    (span : Span) : w = Token.written ⟨k, v, span⟩ := by
  cases h with
  | name _ _ => rfl
  | keyword hv => exact (Token.written_of_isPlain (t := ⟨k, v, span⟩) (isPlain_keyword _ hv)).symm
  | number _ => rfl
  | string _ => rfl
  | raw _ => rfl
  | fixed hv => exact (Token.written_of_isPlain (t := ⟨k, v, span⟩) (isPlain_punctuation _ hv)).symm

theorem Lexeme.kind_ne_eof {k : TokenKind} {v : String} {w : List Char} (h : Lexeme k v w) :
    k ≠ .eof := by
  rintro rfl
  cases h with
  | keyword hv => exact Bool.noConfusion (isPlain_keyword _ hv)
  | fixed hv => exact Bool.noConfusion (isPlain_punctuation _ hv)

/-- The stretches in front of tokens: each token, with the offset where the one before it
ends. -/
def stretches (offset : Nat) : List Token → List (Nat × Token)
  | [] => []
  | t :: rest => (offset, t) :: stretches t.span.stop rest

/-- The tokens lie in the text one behind the other. Each but the end of file covers the
characters it is written with, the end of file nothing at the end of the text, and what is
left between them is white space and comments. -/
structure Tiling (file : String) (cs : List Char) (ts : List Token) : Prop where
  ordered : ts.Pairwise fun t u => t.span.start < u.span.start ∧ t.span.stop ≤ u.span.start
  ended : ∃ us, ts = us ++ [Token.endOfFile (byteLength cs) file] ∧ ∀ t ∈ us, t.kind ≠ .eof
  covered : ∀ t ∈ ts, t.kind ≠ .eof → t.span.start < t.span.stop ∧
    Between cs t.span.start t.span.stop t.written ∧ Lexeme t.kind t.value t.written
  gaps : ∀ g ∈ stretches 0 ts, ∃ gap, Between cs g.1 g.2.span.start gap ∧
    (Gap gap ∨ g.2.kind = .eof ∧ OpenComment gap)
  file_eq : ∀ t ∈ ts, t.span.file = file

namespace Tiled

variable {file : String} {offset : Nat} {cs : List Char} {ts : List Token}

theorem offset_le (h : Tiled file offset cs ts) : ∀ t ∈ ts, offset ≤ t.span.start := by
  induction h with
  | last _ =>
    intro t ht
    rw [List.mem_singleton.mp ht]
    exact Nat.le_add_right _ _
  | token _ _ _ ih =>
    intro t ht
    rcases List.mem_cons.mp ht with rfl | ht
    · exact Nat.le_add_right _ _
    · have := ih t ht
      omega

theorem ordered (h : Tiled file offset cs ts) :
    ts.Pairwise fun t u => t.span.start < u.span.start ∧ t.span.stop ≤ u.span.start := by
  induction h with
  | last _ => exact List.pairwise_singleton _ _
  | token _ hw hrest ih =>
    refine .cons (fun u hu => ?_) ih
    have hpos := Text.byteLength_pos hw.ne_nil
    have hle := hrest.offset_le u hu
    exact ⟨by simp only; omega, hle⟩

theorem ended (h : Tiled file offset cs ts) : ∃ us,
    ts = us ++ [Token.endOfFile (offset + byteLength cs) file] ∧ ∀ t ∈ us, t.kind ≠ .eof := by
  induction h with
  | last _ => exact ⟨[], rfl, by simp⟩
  | @token offset k v gap w cs ts _ hw _ ih =>
    obtain ⟨us, rfl, hus⟩ := ih
    rw [byteLength_append, byteLength_append, ← Nat.add_assoc, ← Nat.add_assoc, ← List.cons_append]
    refine ⟨_, rfl, fun t ht => ?_⟩
    rcases List.mem_cons.mp ht with rfl | ht
    · exact hw.kind_ne_eof
    · exact hus t ht

theorem byteLength_behind {front : List Char} (hfront : byteLength front = offset)
    (gap w : List Char) :
    byteLength (front ++ (gap ++ w)) = offset + byteLength gap + byteLength w := by
  rw [byteLength_append, byteLength_append, hfront, Nat.add_assoc]

/-- The text of a token, in a text with something in front. -/
theorem covered (h : Tiled file offset cs ts) (front : List Char)
    (hfront : byteLength front = offset) :
    ∀ t ∈ ts, t.kind ≠ .eof → t.span.start < t.span.stop ∧
      Between (front ++ cs) t.span.start t.span.stop t.written ∧
      Lexeme t.kind t.value t.written := by
  induction h generalizing front with
  | last _ =>
    intro t ht hk
    rw [List.mem_singleton.mp ht] at hk
    exact absurd rfl hk
  | @token offset k v gap w cs ts _ hw _ ih =>
    intro t ht hk
    rcases List.mem_cons.mp ht with rfl | ht
    · have hpos := Text.byteLength_pos hw.ne_nil
      rw [← hw.eq_written]
      refine ⟨by simp only; omega, ⟨front ++ gap, cs, by simp, ?_, rfl⟩, hw⟩
      rw [byteLength_append, hfront]
    · have := ih _ (byteLength_behind hfront gap w) t ht hk
      simpa using this

theorem gaps (h : Tiled file offset cs ts) (front : List Char)
    (hfront : byteLength front = offset) :
    ∀ g ∈ stretches offset ts, ∃ gap, Between (front ++ cs) g.1 g.2.span.start gap ∧
      (Gap gap ∨ g.2.kind = .eof ∧ OpenComment gap) := by
  induction h generalizing front with
  | @last offset gap hgap =>
    intro g hg
    rw [List.mem_singleton.mp hg]
    exact ⟨gap, ⟨front, [], by simp, hfront, rfl⟩, hgap.imp_right fun h => ⟨rfl, h⟩⟩
  | @token offset k v gap w cs ts hgap _ _ ih =>
    intro g hg
    rcases List.mem_cons.mp hg with rfl | hg
    · exact ⟨gap, ⟨front, w ++ cs, rfl, hfront, rfl⟩, .inl hgap⟩
    · have := ih _ (byteLength_behind hfront gap w) g hg
      simpa using this

theorem file_eq (h : Tiled file offset cs ts) : ∀ t ∈ ts, t.span.file = file := by
  induction h with
  | last _ =>
    intro t ht
    rw [List.mem_singleton.mp ht]
    rfl
  | token _ _ _ ih => exact List.forall_mem_cons.mpr ⟨rfl, ih⟩

theorem tiling (h : Tiled file 0 cs ts) : Tiling file cs ts where
  ordered := h.ordered
  ended := by simpa using h.ended
  covered := h.covered [] rfl
  gaps := h.gaps [] rfl
  file_eq := h.file_eq

end Tiled

theorem tiling_of_scan {source file : String} {ts : List Token} (h : scan source file = .ok ts) :
    Tiling file source.toList ts :=
  (tiled_of_scanFrom file 0 source.toList h).tiling

/-- Every token ends inside the text. -/
theorem Tiling.stop_le {file : String} {cs : List Char} {ts : List Token} (h : Tiling file cs ts) :
    ∀ t ∈ ts, t.span.stop ≤ byteLength cs := by
  intro t ht
  by_cases hk : t.kind = .eof
  · obtain ⟨us, rfl, hus⟩ := h.ended
    rcases List.mem_append.mp ht with ht | ht
    · exact absurd hk (hus t ht)
    · rw [List.mem_singleton.mp ht]
      exact Nat.le_refl _
  · exact (h.covered t ht hk).2.1.stop_le

/-- Scanning ends at a character of the text with an error that names it: the text before it
can be scanned, and no rule matches there. -/
def StuckAt (file : String) (cs : List Char) (e : Error) : Prop :=
  ∃ before c rest, cs = before ++ c :: rest ∧
    e = .located (.unrecognisedToken c.toString) ⟨byteLength before, file⟩ ∧
    (∃ ts, scan (String.ofList before) file = .ok ts) ∧
    ∀ rule ∈ ScanRule.all, rule.length? (c :: rest) = none

theorem stuckAt_of_scan {source file : String} {e : Error} (h : scan source file = .error e) :
    StuckAt file source.toList e := by
  obtain ⟨before, c, rest, hcs, rfl, hnone, ts, hts⟩ := scanFrom_eq_error file 0 source.toList h
  refine ⟨before, c, rest, hcs, by rw [Nat.zero_add], ⟨ts, ?_⟩, ScanRule.first?_eq_none_iff.mp hnone⟩
  rw [scan, String.toList_ofList]
  exact hts

/-- **Tokens tile the source.** In a source whose offsets fit 32 bits, the tokens that
scanning finds lie one behind the other on their own characters, with only white space and
comments between them. If scanning fails, it does so at a character where no rule matches,
and the source before it is scanned. Either way every offset fits. -/
theorem scan_tiles (source file : String) (hsize : source.utf8ByteSize < offsetLimit) :
    match scan source file with
    | .ok ts => Tiling file source.toList ts ∧ ∀ t ∈ ts, t.span.stop < offsetLimit
    | .error e => StuckAt file source.toList e ∧ ∃ p, e.position = some p ∧ p.offset < offsetLimit := by
  rw [← Text.byteLength_toList] at hsize
  cases h : scan source file with
  | ok ts =>
    have htiling := tiling_of_scan h
    exact ⟨htiling, fun t ht => Nat.lt_of_le_of_lt (htiling.stop_le t ht) hsize⟩
  | error e =>
    have hstuck := stuckAt_of_scan h
    refine ⟨hstuck, ?_⟩
    obtain ⟨before, c, rest, hcs, rfl, _⟩ := hstuck
    rw [hcs, byteLength_append] at hsize
    exact ⟨_, rfl, Nat.lt_of_le_of_lt (Nat.le_add_right _ _) hsize⟩

/-- A string of two characters that take three bytes, and a character that begins nothing. -/
def accented : String :=
  "f(\"né\") // ü\n + é"

theorem scan_tiles_accented : accented.utf8ByteSize < offsetLimit ∧
    match scan accented "main.lc" with
    | .ok ts => Tiling "main.lc" accented.toList ts ∧ ∀ t ∈ ts, t.span.stop < offsetLimit
    | .error e => StuckAt "main.lc" accented.toList e ∧
        ∃ p, e.position = some p ∧ p.offset < offsetLimit :=
  ⟨by decide, scan_tiles accented "main.lc" (by decide)⟩

end LittleC
