/-
Scanning line by line. A scan in a block is told by its place, its tokens and how far the blocks are indented; where it
stands at the start of a line, nothing else of what it has read matters.

- `Leads`: what is left of one scan is what is left of another.
- `leads_scalar`, `leads_emptyList`: what stands behind a colon or a dash, up to the end of its line.
- `leads_firstKey`, `leads_nextKey`, `leads_dash`: what a line begins with.
- `leads_pop`, `run_end`: blocks end where a line is indented less, or the text is over.
-/
import RankEval.Proofs.Yaml.Words

namespace RankEval.Yaml.Scan

/-! ## Steps -/

/-- goes to the next token and closes the blocks that end before it -/
def settle (size : Nat) (s : Scan) : Option Scan :=
  let (keyAllowed, cursor) := skipToToken s.inFlow (size + 1) s.keyAllowed s.cursor
  (dropStale { s with keyAllowed, cursor }).map fun s => s.unindentTo (Int.ofNat s.cursor.column)

/-- reads the token ahead and all behind it -/
def advance (size fuel : Nat) (s : Scan) : Option (List Token) :=
  match s.cursor.rest with
  | [] => s.closeAll.map fun s => s.tokens.reverse
  | c :: rest => (s.token (size + 1) c rest).bind (run size fuel)

theorem run_succ (size fuel : Nat) (s : Scan) : run size (fuel + 1) s = (s.settle size).bind (advance size fuel) := by
  rw [run, settle]
  generalize skipToToken s.inFlow (size + 1) s.keyAllowed s.cursor = p
  obtain ⟨keyAllowed, cursor⟩ := p
  dsimp only
  cases dropStale { s with keyAllowed, cursor } with
  | none => rfl
  | some s =>
    rw [Option.map_some, Option.bind_some, advance]
    change (match (s.unindentTo (Int.ofNat s.cursor.column)).cursor.rest with
      | [] => _
      | c :: rest => _) = _
    cases (s.unindentTo (Int.ofNat s.cursor.column)).cursor.rest with
    | nil =>
      dsimp only
      cases (s.unindentTo (Int.ofNat s.cursor.column)).closeAll <;> rfl
    | cons c rest => rfl

/-- Whatever steps are left for the rest of a text, one scan comes to the same end as another that is further on. -/
def Leads (size : Nat) (s s' : Scan) : Prop :=
  s.cursor.rest.length ≤ size → ∃ n, n + s'.cursor.rest.length ≤ s.cursor.rest.length ∧
    ∀ fuel, run size (fuel + n + 1) s = run size (fuel + 1) s'

variable {size : Nat}

theorem Leads.refl (s : Scan) : Leads size s s := fun _ => ⟨0, by omega, fun _ => rfl⟩

theorem Leads.trans {s s' s'' : Scan} (h : Leads size s s') (h' : Leads size s' s'') : Leads size s s'' := by
  intro hsize
  obtain ⟨n, hn, hrun⟩ := h hsize
  obtain ⟨n', hn', hrun'⟩ := h' (by omega)
  refine ⟨n + n', by omega, fun fuel => ?_⟩
  rw [Nat.add_comm n n', ← Nat.add_assoc, hrun, hrun']

theorem run_congr {s s' : Scan} (h : settle size s = settle size s') (fuel : Nat) :
    run size (fuel + 1) s = run size (fuel + 1) s' := by
  rw [run_succ, run_succ, h]

theorem Leads.of_settle {s s' : Scan} (hlength : s'.cursor.rest.length ≤ s.cursor.rest.length)
    (h : s.cursor.rest.length ≤ size → settle size s = settle size s') : Leads size s s' :=
  fun hsize => ⟨0, by omega, run_congr (h hsize)⟩

/-- a token is read -/
theorem Leads.of_token {s s' : Scan} (hlength : s'.cursor.rest.length < s.cursor.rest.length)
    (h : s.cursor.rest.length ≤ size → ∃ s₁ c cs s₂, settle size s = some s₁ ∧ s₁.cursor.rest = c :: cs ∧
      s₁.token (size + 1) c cs = some s₂ ∧ settle size s₂ = settle size s') : Leads size s s' := by
  intro hsize
  obtain ⟨s₁, c, cs, s₂, hsettle, hrest, htoken, hsame⟩ := h hsize
  refine ⟨1, by omega, fun fuel => ?_⟩
  rw [run_succ, hsettle, Option.bind_some, advance, hrest]
  dsimp only
  rw [htoken, Option.bind_some]
  exact run_congr hsame fuel

/-! ## Blocks -/

/-- a scan in a block, outside of flow collections; a key may have begun on the way -/
def inBlock (cursor : Cursor) (tokens : List Token) (indent : Int) (outer : List Int) (allowed : Bool)
    (key : Option KeyStart) : Scan := ⟨cursor, tokens, tokens.length, indent, outer, allowed, [key]⟩

/-- a scan at the start of a line -/
def atLine (tokens : List Token) (indent : Int) (outer : List Int) (index line : Nat) (text : List Char) : Scan :=
  inBlock ⟨index, line, 0, text⟩ tokens indent outer true none

/-- a text that starts with a token or ends, behind at most `n` spaces -/
def Dedented (n : Nat) (text : List Char) : Prop := ∃ k rest, text = spaces k ++ rest ∧ k ≤ n ∧ atToken rest = true

theorem Dedented.mono {m n : Nat} (hmn : m ≤ n) {text : List Char} (h : Dedented m text) : Dedented n text := by
  obtain ⟨k, rest, rfl, hk, hrest⟩ := h
  exact ⟨k, rest, rfl, hk.trans hmn, hrest⟩

variable {index line column k : Nat} {tokens : List Token} {indent : Int} {outer : List Int} {allowed : Bool}
  {key : Option KeyStart} {rest : List Char}

theorem closeBlocks_of_le {s : Scan} {n : Int} (h : s.indent ≤ n) (outer : List Int) : closeBlocks n outer s = s := by
  cases outer with
  | nil => rfl
  | cons o outer => exact if_neg (by omega)

theorem closeBlocks_of_lt {s : Scan} {n o : Int} (h : n < s.indent) (outer : List Int) :
    closeBlocks n (o :: outer) s = closeBlocks n outer ({ s with indent := o, outer := outer }.push .blockEnd) :=
  if_pos h

/-- a key start on this line is kept -/
theorem dropStale_fresh {cursor : Cursor}
    (hkey : ∀ x ∈ key, x.line = cursor.line ∧ cursor.index ≤ x.index + keyLimit) :
    dropStale (inBlock cursor tokens indent outer allowed key) =
      some (inBlock cursor tokens indent outer allowed key) := by
  cases key with
  | none => rfl
  | some x =>
    obtain ⟨hline, hindex⟩ := hkey x rfl
    have hfresh : ¬(x.line < cursor.line ∨ x.index + keyLimit < cursor.index) := by omega
    simp [dropStale, inBlock, hfresh]

/-- a key start on a line before is given up -/
theorem dropStale_passed {cursor : Cursor} (hkey : ∀ x ∈ key, x.line < cursor.line ∧ x.required = false) :
    dropStale (inBlock cursor tokens indent outer allowed key) =
      some (inBlock cursor tokens indent outer allowed none) := by
  cases key with
  | none => rfl
  | some x =>
    obtain ⟨hline, hrequired⟩ := hkey x rfl
    simp [dropStale, inBlock, hline, hrequired]

/-- spaces up to the next token on a line -/
theorem settle_spaces {key' : Option KeyStart} (hrest : atToken rest = true)
    (hkey : dropStale (inBlock ⟨index + k, line, column + k, rest⟩ tokens indent outer allowed key) =
      some (inBlock ⟨index + k, line, column + k, rest⟩ tokens indent outer allowed key')) :
    settle size (inBlock ⟨index, line, column, spaces k ++ rest⟩ tokens indent outer allowed key) =
      some (closeBlocks (Int.ofNat (column + k)) outer
        (inBlock ⟨index + k, line, column + k, rest⟩ tokens indent outer allowed key')) := by
  have hskip : skipToToken (inBlock ⟨index, line, column, spaces k ++ rest⟩ tokens indent outer allowed key).inFlow
      (size + 1) allowed ⟨index, line, column, spaces k ++ rest⟩ =
        (allowed, ⟨index + k, line, column + k, rest⟩) :=
    skipToToken_spaces false allowed size index line column k hrest
  simp only [inBlock] at hskip hkey
  simp only [settle, inBlock, hskip, hkey, Option.map_some]
  rfl

/-- a token ahead that no block ends before -/
theorem settle_ahead (hrest : atToken rest = true) (hindent : indent ≤ Int.ofNat (column + k))
    (hkey : ∀ x ∈ key, x.line = line ∧ index + k ≤ x.index + keyLimit) :
    settle size (inBlock ⟨index, line, column, spaces k ++ rest⟩ tokens indent outer allowed key) =
      some (inBlock ⟨index + k, line, column + k, rest⟩ tokens indent outer allowed key) := by
  rw [settle_spaces hrest (dropStale_fresh hkey), closeBlocks_of_le hindent]

/-- the way to the next line -/
theorem settle_line (hsize : 0 < size) (hrest : atToken rest = true) :
    settle size (inBlock ⟨index, line, column, '\n' :: (spaces k ++ rest)⟩ tokens indent outer allowed none) =
      some (closeBlocks (Int.ofNat k) outer
        (inBlock ⟨index + 1 + k, line + 1, k, rest⟩ tokens indent outer true none)) := by
  obtain ⟨n, rfl⟩ := Nat.exists_eq_succ_of_ne_zero hsize.ne'
  have hskip : skipToToken (inBlock ⟨index, line, column, '\n' :: (spaces k ++ rest)⟩ tokens indent outer allowed
      none).inFlow (n + 2) allowed ⟨index, line, column, '\n' :: (spaces k ++ rest)⟩ =
        (true, ⟨index + 1 + k, line + 1, k, rest⟩) :=
    skipToToken_line allowed n index line column k hrest
  simp only [inBlock] at hskip
  simp only [settle, inBlock, hskip]
  rfl

theorem settle_atLine (hrest : atToken rest = true) :
    settle size (atLine tokens indent outer index line (spaces k ++ rest)) = some (closeBlocks (Int.ofNat k) outer
      (inBlock ⟨index + k, line, k, rest⟩ tokens indent outer true none)) := by
  rw [atLine, settle_spaces hrest rfl, Nat.zero_add]

/-- a line ends and the next one begins -/
theorem leads_line {n : Nat} {text : List Char} (htext : Dedented n text) :
    Leads size (inBlock ⟨index, line, column, '\n' :: text⟩ tokens indent outer allowed none)
      (atLine tokens indent outer (index + 1) (line + 1) text) := by
  obtain ⟨k, rest, rfl, -, hrest⟩ := htext
  refine Leads.of_settle (Nat.le_succ _) fun hsize => ?_
  have hpos : 0 < size := Nat.lt_of_lt_of_le (Nat.succ_pos _) hsize
  rw [settle_line hpos hrest, settle_atLine hrest]

/-- a block ends before a line that is indented less -/
theorem leads_pop {n : Nat} {text : List Char} (htext : Dedented n text) (hindent : Int.ofNat n < indent) (o : Int) :
    Leads size (atLine tokens indent (o :: outer) index line text)
      (atLine (.blockEnd :: tokens) o outer index line text) := by
  obtain ⟨k, rest, rfl, hk, hrest⟩ := htext
  have hlt : Int.ofNat k < indent := Int.lt_of_le_of_lt (Int.ofNat_le.2 hk) hindent
  refine Leads.of_settle (Nat.le_refl _) fun _ => ?_
  rw [settle_atLine hrest, settle_atLine hrest, closeBlocks_of_lt hlt]
  rfl

/-- the text is over and so are its blocks -/
theorem run_end (fuel : Nat) : run size (fuel + 1) (atLine tokens 0 [-1] index line []) =
    some (tokens.reverse ++ [.blockEnd]) := by
  have hsettle : settle size (atLine tokens 0 [-1] index line []) =
      some (inBlock ⟨index, line, 0, []⟩ tokens 0 [-1] true none) := settle_atLine (k := 0) rfl
  rw [run_succ, hsettle, Option.bind_some]
  change some (Token.blockEnd :: tokens).reverse = _
  rw [List.reverse_cons]

/-- a scan comes to the start of a line -/
def Reaches (size : Nat) (s : Scan) (tokens : List Token) (indent : Int) (outer : List Int) (text : List Char) : Prop :=
  ∃ index line, Leads size s (atLine tokens indent outer index line text)

section
variable {s s' : Scan} {tokens' : List Token} {indent' : Int} {outer' : List Int} {text text' : List Char}

theorem reaches_atLine (index line : Nat) :
    Reaches size (atLine tokens indent outer index line text) tokens indent outer text := ⟨index, line, .refl _⟩

theorem Leads.reaches (h : Leads size s s') (h' : Reaches size s' tokens indent outer text) :
    Reaches size s tokens indent outer text := by
  obtain ⟨index, line, h'⟩ := h'
  exact ⟨index, line, h.trans h'⟩

theorem Reaches.trans (h : Reaches size s tokens indent outer text)
    (h' : ∀ index line, Reaches size (atLine tokens indent outer index line text) tokens' indent' outer' text') :
    Reaches size s tokens' indent' outer' text' := by
  obtain ⟨index, line, h⟩ := h
  exact h.reaches (h' index line)

end

/-! ## What a line holds -/

theorem atMarker_of_ne {cursor : Cursor} {c mark : Char} (hrest : cursor.rest = c :: rest) (hc : c ≠ mark) :
    cursor.atMarker mark = false := by
  rw [Cursor.atMarker, hrest, Bool.and_eq_false_iff]
  right
  split
  · next heq =>
    cases heq
    simp [hc]
  · rfl

theorem no_marker {cursor : Cursor} {c : Char} (hrest : cursor.rest = c :: rest) (hc : c ≠ '-' ∧ c ≠ '.') :
    cursor.atMarker '-' = false ∧ cursor.atMarker '.' = false :=
  ⟨atMarker_of_ne hrest hc.1, atMarker_of_ne hrest hc.2⟩

theorem token_colon {s : Scan} (fuel : Nat) (hrest : s.cursor.rest = ':' :: rest) (hgap : atGap rest = true) :
    s.token fuel ':' rest = s.valueMark := by
  have hmarker := no_marker hrest (by decide)
  simp [token, hmarker, hgap]

theorem token_open {s : Scan} (fuel : Nat) (hrest : s.cursor.rest = '[' :: rest) :
    s.token fuel '[' rest = s.openFlow .flowSequence := by
  have hmarker := no_marker hrest (by decide)
  simp [token, hmarker]

theorem token_close {s : Scan} (fuel : Nat) (hrest : s.cursor.rest = ']' :: rest) :
    s.token fuel ']' rest = s.closeFlow .flowSequenceEnd := by
  have hmarker := no_marker hrest (by decide)
  simp [token, hmarker]

/-- a dash before a space is no part of a document marker -/
theorem token_dash {s : Scan} (fuel : Nat) (hrest : s.cursor.rest = '-' :: ' ' :: rest) :
    s.token fuel '-' (' ' :: rest) = s.blockEntry := by
  have hdash : s.cursor.atMarker '-' = false := by
    cases rest <;> simp [Cursor.atMarker, hrest]
  have hdot : s.cursor.atMarker '.' = false := atMarker_of_ne hrest (by decide)
  simp [token, hdash, hdot, atGap, isBlank]

/-- the key start at a token -/
def keyAt (cursor : Cursor) (tokens : List Token) (indent : Int) (allowed : Bool) : Option KeyStart :=
  if allowed then some ⟨indent == Int.ofNat cursor.column, tokens.length, cursor.index, cursor.line, cursor.column⟩
  else none

theorem saveKey_inBlock (cursor : Cursor) : saveKey (inBlock cursor tokens indent outer allowed none) =
    some (inBlock cursor tokens indent outer allowed (keyAt cursor tokens indent allowed)) := by
  cases allowed <;> rfl

section
variable {w : List Char} (hw : IsWord w)

include hw

/-- a word is a plain scalar -/
theorem token_inBlock (tokens : List Token) (indent : Int) (outer : List Int) (allowed : Bool)
    {cursor cursor' : Cursor} {fuel : Nat} {broken : Bool} (hrest : cursor.rest = w ++ rest)
    (hplain : plainScalar false (indent + 1).toNat fuel cursor = some (w, broken, cursor')) :
    ∃ c cs, cursor.rest = c :: cs ∧ token (inBlock cursor tokens indent outer allowed none) fuel c cs =
      some (inBlock cursor' (.scalar (String.ofList w) .plain :: tokens) indent outer broken
        (keyAt cursor tokens indent allowed)) := by
  obtain ⟨c, w', hcons, -⟩ := hw.exists_cons
  refine ⟨c, w' ++ rest, by rw [hrest, hcons, List.cons_append], ?_⟩
  have hflow : inFlow (inBlock cursor tokens indent outer allowed none) = false := rfl
  rw [token_word hw fuel hflow hrest (by rw [hcons, List.cons_append]), plain, saveKey_inBlock, Option.bind_eq_bind,
    Option.bind_some]
  change (plainScalar false (indent + 1).toNat fuel cursor >>= _) = _
  rw [hplain]
  rfl

/-- a word behind a colon or a dash, at the end of its line -/
theorem leads_scalar {n : Nat} (hn : n ≤ column) {text : List Char} (htext : Dedented n text) :
    Leads size (inBlock ⟨index, line, column, ' ' :: (w ++ '\n' :: text)⟩ tokens (Int.ofNat n) outer allowed none)
      (atLine (.scalar (String.ofList w) .plain :: tokens) (Int.ofNat n) outer (index + 1 + w.length + 1) (line + 1)
        text) := by
  obtain ⟨k, rest, rfl, hk, hrest⟩ := htext
  refine Leads.of_token ?_ fun hsize => ?_
  · simp only [atLine, inBlock, List.length_cons, List.length_append]
    omega
  have hfuel : k < size := by
    simp only [inBlock, List.length_cons, List.length_append, spaces, List.length_replicate] at hsize
    omega
  have hsettle : settle size (inBlock ⟨index, line, column, ' ' :: (w ++ '\n' :: (spaces k ++ rest))⟩ tokens
      (Int.ofNat n) outer allowed none) =
        some (inBlock ⟨index + 1, line, column + 1, w ++ '\n' :: (spaces k ++ rest)⟩ tokens (Int.ofNat n) outer allowed
          none) := by
    exact settle_ahead (k := 1) (hw.atToken_append _) (Int.ofNat_le.2 (Nat.le_succ_of_le hn)) (by simp)
  have hplain : plainScalar false (Int.ofNat n + 1).toNat (size + 1)
      ⟨index + 1, line, column + 1, w ++ '\n' :: (spaces k ++ rest)⟩ =
        some (w, true, ⟨index + 1 + w.length + 1 + k, line + 1, k, rest⟩) :=
    plainScalar_line hw _ _ _ hrest (Nat.lt_succ_of_le hk) hfuel
  obtain ⟨c, cs, hcs, htoken⟩ := token_inBlock hw tokens (Int.ofNat n) outer allowed rfl hplain
  refine ⟨_, c, cs, _, hsettle, hcs, htoken, ?_⟩
  -- where a key may begin, the word was noted as one; it is given up on the next line
  have hpassed : ∀ x ∈ keyAt ⟨index + 1, line, column + 1, w ++ '\n' :: (spaces k ++ rest)⟩ tokens (Int.ofNat n)
      allowed, x.line < line + 1 ∧ x.required = false := by
    intro x hx
    cases allowed with
    | false => cases hx
    | true =>
      cases hx
      refine ⟨Nat.lt_succ_self _, beq_eq_false_iff_ne.2 fun heq => ?_⟩
      have hcolumn : n = column + 1 := Int.ofNat_inj.1 heq
      omega
  rw [settle_atLine hrest]
  exact settle_spaces (k := 0) hrest (dropStale_passed hpassed)

/-- A word before a colon. What is made of the colon depends on where the word begins. -/
theorem leads_colon (hlength : w.length ≤ keyLimit) (hgap : atGap rest = true) {s : Scan}
    (hindent : indent ≤ Int.ofNat (column + k))
    (hcolon : valueMark (inBlock ⟨index + k + w.length, line, column + k + w.length, ':' :: rest⟩
      (.scalar (String.ofList w) .plain :: tokens) indent outer false
      (keyAt ⟨index + k, line, column + k, w ++ ':' :: rest⟩ tokens indent true)) = some s)
    (hrest : s.cursor.rest = rest) :
    Leads size (inBlock ⟨index, line, column, spaces k ++ (w ++ ':' :: rest)⟩ tokens indent outer true none) s := by
  have hsettle : settle size (inBlock ⟨index, line, column, spaces k ++ (w ++ ':' :: rest)⟩ tokens indent outer true
      none) = some (inBlock ⟨index + k, line, column + k, w ++ ':' :: rest⟩ tokens indent outer true none) :=
    settle_ahead (hw.atToken_append _) hindent (by simp)
  have hplain : plainScalar false (indent + 1).toNat (size + 1) ⟨index + k, line, column + k, w ++ ':' :: rest⟩ =
      some (w, false, ⟨index + k + w.length, line, column + k + w.length, ':' :: rest⟩) :=
    plainScalar_key hw _ _ _ _ _ hgap
  obtain ⟨c, cs, hcs, htoken⟩ := token_inBlock hw tokens indent outer true rfl hplain
  have hword : Leads size (inBlock ⟨index, line, column, spaces k ++ (w ++ ':' :: rest)⟩ tokens indent outer true none)
      (inBlock ⟨index + k + w.length, line, column + k + w.length, ':' :: rest⟩
        (.scalar (String.ofList w) .plain :: tokens) indent outer false
        (keyAt ⟨index + k, line, column + k, w ++ ':' :: rest⟩ tokens indent true)) := by
    refine Leads.of_token ?_ fun _ => ⟨_, c, cs, _, hsettle, hcs, htoken, rfl⟩
    obtain ⟨c, w', rfl, -⟩ := hw.exists_cons
    simp only [inBlock, List.length_cons, List.length_append]
    omega
  refine hword.trans (Leads.of_token (by rw [hrest]; exact Nat.lt_succ_self _) fun _ => ?_)
  refine ⟨_, ':', rest, s, settle_ahead (k := 0) rfl ?_ ?_, rfl, ?_, rfl⟩
  · exact hindent.trans (Int.ofNat_le.2 (Nat.le_add_right _ _))
  · intro x hx
    cases hx
    exact ⟨rfl, Nat.add_le_add_left hlength _⟩
  · rw [token_colon _ rfl hgap]
    exact hcolon

/-- The key of a mapping that begins with it. The colon reveals both; their tokens go before the key. -/
theorem leads_firstKey (hlength : w.length ≤ keyLimit) (hgap : atGap rest = true)
    (hindent : indent < Int.ofNat (column + k)) :
    Leads size (inBlock ⟨index, line, column, spaces k ++ (w ++ ':' :: rest)⟩ tokens indent outer true none)
      (inBlock ⟨index + k + w.length + 1, line, column + k + w.length + 1, rest⟩
        (.value :: .scalar (String.ofList w) .plain :: .key :: .blockMapping :: tokens) (Int.ofNat (column + k))
        (indent :: outer) false none) := by
  refine leads_colon hw hlength hgap hindent.le ?_ rfl
  have hopen : ¬((column : Int) + k ≤ indent) := not_le.2 hindent
  have hbehind : tokens.length + 1 + 1 - tokens.length = 2 := by omega
  simp [valueMark, keyAt, insertAt, indentTo, inFlow, inBlock, single, push, Cursor.skip, Cursor.past, hopen, hbehind]

/-- the key of another member of a mapping -/
theorem leads_nextKey (hlength : w.length ≤ keyLimit) (hgap : atGap rest = true) :
    Leads size (atLine tokens (Int.ofNat k) outer index line (spaces k ++ (w ++ ':' :: rest)))
      (inBlock ⟨index + k + w.length + 1, line, k + w.length + 1, rest⟩
        (.value :: .scalar (String.ofList w) .plain :: .key :: tokens) (Int.ofNat k) outer false none) := by
  rw [atLine]
  have hcolumn : 0 + k = k := Nat.zero_add k
  refine leads_colon hw hlength hgap (by rw [hcolumn]) ?_ rfl
  simp [valueMark, keyAt, insertAt, indentTo, inFlow, inBlock, single, push, Cursor.skip, Cursor.past]

end

/-- a scan behind an open bracket; within brackets there is a level of its own for keys -/
def inBrackets (cursor : Cursor) (tokens : List Token) (indent : Int) (outer : List Int) : Scan :=
  ⟨cursor, tokens, tokens.length, indent, outer, true, [none, none]⟩

theorem settle_inBrackets :
    settle size (inBrackets ⟨index, line, column, ']' :: rest⟩ tokens indent outer) =
      some (inBrackets ⟨index, line, column, ']' :: rest⟩ tokens indent outer) := by
  have hskip : skipToToken true (size + 1) true ⟨index, line, column, ']' :: rest⟩ =
      (true, ⟨index, line, column, ']' :: rest⟩) :=
    skipToToken_spaces true true size index line column 0 rfl
  have hflow : (inBrackets ⟨index, line, column, ']' :: rest⟩ tokens indent outer).inFlow = true := rfl
  rw [settle, hflow]
  change (dropStale { inBrackets ⟨index, line, column, ']' :: rest⟩ tokens indent outer with
    keyAllowed := (skipToToken true (size + 1) true ⟨index, line, column, ']' :: rest⟩).1
    cursor := (skipToToken true (size + 1) true ⟨index, line, column, ']' :: rest⟩).2 }).map _ = _
  rw [hskip]
  rfl

/-- an empty list behind a colon -/
theorem leads_emptyList {n : Nat} (hn : n ≤ column) {text : List Char} (htext : Dedented n text) :
    Leads size (inBlock ⟨index, line, column, ' ' :: '[' :: ']' :: '\n' :: text⟩ tokens (Int.ofNat n) outer false none)
      (atLine (.flowSequenceEnd :: .flowSequence :: tokens) (Int.ofNat n) outer (index + 4) (line + 1) text) := by
  have hopen : Leads size
      (inBlock ⟨index, line, column, ' ' :: '[' :: ']' :: '\n' :: text⟩ tokens (Int.ofNat n) outer false none)
      (inBrackets ⟨index + 2, line, column + 2, ']' :: '\n' :: text⟩ (.flowSequence :: tokens) (Int.ofNat n) outer) :=
    Leads.of_token (Nat.lt_succ_of_lt (Nat.lt_succ_self _)) fun _ => ⟨_, '[', ']' :: '\n' :: text, _,
      settle_ahead (k := 1) rfl (Int.ofNat_le.2 (Nat.le_succ_of_le hn)) (by simp), rfl, token_open _ rfl, rfl⟩
  have hclose : Leads size
      (inBrackets ⟨index + 2, line, column + 2, ']' :: '\n' :: text⟩ (.flowSequence :: tokens) (Int.ofNat n) outer)
      (inBlock ⟨index + 3, line, column + 3, '\n' :: text⟩ (.flowSequenceEnd :: .flowSequence :: tokens) (Int.ofNat n)
        outer false none) :=
    Leads.of_token (Nat.lt_succ_self _) fun _ =>
      ⟨_, ']', '\n' :: text, _, settle_inBrackets, rfl, token_close _ rfl, rfl⟩
  exact (hopen.trans hclose).trans (leads_line htext)

/-- the dash before an item of a list, which is not indented -/
theorem leads_dash :
    Leads size (atLine tokens (Int.ofNat k) outer index line (spaces k ++ '-' :: ' ' :: rest))
      (inBlock ⟨index + k + 1, line, k + 1, ' ' :: rest⟩ (.blockEntry :: tokens) (Int.ofNat k) outer true none) := by
  have hsettle : settle size (atLine tokens (Int.ofNat k) outer index line (spaces k ++ '-' :: ' ' :: rest)) =
      some (inBlock ⟨index + k, line, k, '-' :: ' ' :: rest⟩ tokens (Int.ofNat k) outer true none) := by
    rw [settle_atLine rfl]
    exact congrArg some (closeBlocks_of_le (Int.le_refl (Int.ofNat k)) outer)
  have hentry : blockEntry (inBlock ⟨index + k, line, k, '-' :: ' ' :: rest⟩ tokens (Int.ofNat k) outer true none) =
      some (inBlock ⟨index + k + 1, line, k + 1, ' ' :: rest⟩ (.blockEntry :: tokens) (Int.ofNat k) outer true
        none) := by
    simp [blockEntry, inBlock, inFlow, indentTo, dropKey, single, push, Cursor.skip, Cursor.past]
  refine Leads.of_token ?_ fun _ => ⟨_, '-', ' ' :: rest, _, hsettle, rfl, (token_dash _ rfl).trans hentry, rfl⟩
  simp only [atLine, inBlock, List.length_cons, List.length_append]
  omega

end RankEval.Yaml.Scan
