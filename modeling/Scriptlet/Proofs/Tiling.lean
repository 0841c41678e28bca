import Scriptlet.Evaluation
import Scriptlet.Proofs.Text.Joining
import Scriptlet.Statement

/-
  The tokens of a text tile it.

  Every place of a text belongs to a token or is blank. A piece of the text from one token to another is
  cut into the tokens in between, and so is a text that spells the tokens out anew with a blank between
  neighbours. So the place of a token may stand for its text, and spelled out tokens for the text they
  came from. A text that is not cut stops the cut at one place, and is bad syntax for every reader.

  What is proved:
    1. `Token.Lexes.tiles` — the tokens stand in order and apart where they say, with blanks around them.
    2. `Token.Tiles.covers` — with the end of the text behind them they leave nothing of it over.
    3. `Token.exists_scan_spaced` — tokens spelled out with blanks in between are the same.
    4. `Token.exists_of_scan_error` — where a cut stops, and why.
    5. `Token.scan_tiles` — all of this for every text.
-/

namespace Scriptlet

/-- Two spans that meet are one. -/
theorem Span.of_append {a b c : Nat} (hab : a ≤ b) (hbc : b ≤ c) (t : Text) :
    Span.of ⟨a, b⟩ t ++ Span.of ⟨b, c⟩ t = Span.of ⟨a, c⟩ t := by
  obtain ⟨m, rfl⟩ := Nat.exists_eq_add_of_le hab
  obtain ⟨n, rfl⟩ := Nat.exists_eq_add_of_le hbc
  unfold Span.of
  rw [Nat.add_sub_cancel_left, Nat.add_sub_cancel_left, Nat.add_assoc, Nat.add_sub_cancel_left,
    List.take_add, List.drop_drop]

namespace Token

variable {t rest : Text} {c : CodePoint} {n start : Nat} {tokens : List Token} {fault : ScanFault}

/-! ## Where the tokens stand -/

/-- From the offset `reached` on the text is the tokens, in order and apart, each where it says, with blanks
before and between them, and behind them up to the end of the text, where the list of tokens ends. -/
def Tiles (t : Text) (reached : Nat) : List Token → Prop
  | [] => reached ≤ t.length ∧ (Span.of ⟨reached, t.length⟩ t).isBlank = true
  | token :: rest => reached ≤ token.start ∧ token.start < token.stop ∧ token.stop ≤ t.length ∧
      (Span.of ⟨reached, token.start⟩ t).isBlank = true ∧
      Span.of ⟨token.start, token.stop⟩ t = token.text ∧ Tiles t token.stop rest

/-- Blanks in front of the tokens are passed over. -/
theorem Tiles.passed {a b : Nat} (h : Tiles t b tokens) (hab : a ≤ b)
    (hblank : (Span.of ⟨a, b⟩ t).isBlank = true) : Tiles t a tokens := by
  have hwide : ∀ {c : Nat}, b ≤ c → (Span.of ⟨b, c⟩ t).isBlank = true →
      (Span.of ⟨a, c⟩ t).isBlank = true := by
    intro c hbc hrest
    rw [← Span.of_append hab hbc, Text.isBlank, List.all_append, Bool.and_eq_true]
    exact ⟨hblank, hrest⟩
  cases tokens with
  | nil => exact ⟨hab.trans h.1, hwide h.1 h.2⟩
  | cons token rest =>
    obtain ⟨hstart, hlength, hstop, hgap, htext, hrest⟩ := h
    exact ⟨hab.trans hstart, hlength, hstop, hwide hstart hgap, htext, hrest⟩

/-- A token stands for its text. -/
theorem Tiles.span_of {reached : Nat} (h : Tiles t reached tokens) :
    ∀ token ∈ tokens, Span.of ⟨token.start, token.stop⟩ t = token.text := by
  induction tokens generalizing reached with
  | nil => exact List.forall_mem_nil _
  | cons token rest ih =>
    obtain ⟨-, -, -, -, htext, hrest⟩ := h
    exact List.forall_mem_cons.mpr ⟨htext, ih hrest⟩

/-- What a piece of `n + 1` code points takes from the text, and what it leaves. -/
theorem piece_of_drop (ht : t.drop start = c :: rest) (hn : n ≤ rest.length) :
    Span.of ⟨start, start + n + 1⟩ t = c :: rest.take n ∧ t.drop (start + n + 1) = rest.drop n ∧
      start + n + 1 ≤ t.length := by
  refine ⟨?_, ?_, ?_⟩
  · rw [Span.of, ht, Nat.add_assoc, Nat.add_sub_cancel_left, List.take_succ_cons]
  · rw [Nat.add_assoc, ← List.drop_drop, ht, List.drop_succ_cons]
  · have hlength := congrArg List.length ht
    rw [List.length_drop, List.length_cons] at hlength
    omega

/-- A text is tiled by the tokens that it is cut into, from any place on. -/
theorem Lexes.tiles {left : Text} (h : Lexes start left tokens) (ht : t.drop start = left)
    (hstart : start ≤ t.length) : Tiles t start tokens := by
  induction h with
  | nil start =>
    refine ⟨hstart, ?_⟩
    rw [Span.of, ht, List.take_nil]
    rfl
  | blank hlexeme _ ih =>
    obtain ⟨hspan, hdrop, hstop⟩ := piece_of_drop ht (le_of_lexeme hlexeme)
    refine (ih hdrop hstop).passed (by omega) ?_
    rw [hspan]
    exact List.all_eq_true.mpr (blank_of_lexeme hlexeme)
  | token hlexeme _ ih =>
    obtain ⟨hspan, hdrop, hstop⟩ := piece_of_drop ht (le_of_lexeme hlexeme)
    refine ⟨Nat.le_refl _, by dsimp only; omega, hstop, ?_, hspan, ih hdrop hstop⟩
    rw [Span.of, Nat.sub_self]
    rfl

theorem tiles_of_scan (h : scan t = .ok tokens) : Tiles t 0 tokens :=
  (scan_iff.mp h).tiles rfl (Nat.zero_le _)

/-! ## The end behind the tokens -/

/-- From the offset `reached` on the text is the entries, in order and apart, each where it says, with blanks
before and between them, and nothing behind them. -/
def Covers (t : Text) (reached : Nat) : List ListedToken → Prop
  | [] => reached = t.length
  | entry :: rest => reached ≤ entry.start ∧ entry.start ≤ entry.stop ∧ entry.stop ≤ t.length ∧
      (Span.of ⟨reached, entry.start⟩ t).isBlank = true ∧
      Span.of ⟨entry.start, entry.stop⟩ t = entry.text ∧ Covers t entry.stop rest

/-- The blanks behind the last token stand in front of the end. -/
theorem Tiles.covers {reached : Nat} (h : Tiles t reached tokens) :
    Covers t reached (tokens.map listed ++ [endOf t]) := by
  induction tokens generalizing reached with
  | nil =>
    have hnone : Span.of ⟨t.length, t.length⟩ t = [] := by rw [Span.of, Nat.sub_self, List.take_zero]
    exact ⟨h.1, Nat.le_refl _, Nat.le_refl _, h.2, hnone, rfl⟩
  | cons token rest ih =>
    obtain ⟨hstart, hlength, hstop, hgap, htext, hrest⟩ := h
    exact ⟨hstart, Nat.le_of_lt hlength, hstop, hgap, htext, ih hrest⟩

theorem tokenize_of_scan (h : scan t = .ok tokens) :
    tokenize t = .ok (tokens.map listed ++ [endOf t]) := by
  unfold tokenize
  rw [h]
  rfl

/-! ## Tokens spelled out anew -/

theorem map_word_moved (offset : Nat) (tokens : List Token) :
    (tokens.map (moved offset)).map word = tokens.map word := by
  rw [List.map_map]
  rfl

/-- The text of each token is cut into that token in front of whatever goes on with none. -/
theorem cuts_of_mem (h : scan t = .ok tokens) {token : Token} (hmem : token ∈ tokens)
    (hrest : Severs rest) : Cuts token.text rest [token.word] := by
  obtain ⟨i, hi⟩ := List.mem_iff_getElem?.mp hmem
  obtain ⟨found, hscan, hmoved⟩ := exists_scan_between (k := 0) h hi hi
  have hword : found.map word = [token.word] := by
    rw [← map_word_moved token.start, hmoved, Nat.zero_add, List.take_one, List.head?_drop, hi]
    rfl
  rw [(tiles_of_scan h).span_of token hmem] at hscan
  rw [← hword]
  exact cuts_of_scan hscan hrest

theorem severs_blank (rest : Text) : Severs (" " ++ rest) := by
  intro c hc
  cases hc
  exact .inl (by decide)

theorem cuts_spaced (tokens : List Token)
    (h : ∀ token ∈ tokens, ∀ rest, Severs rest → Cuts token.text rest [token.word]) :
    Cuts (Text.join " " (tokens.map Token.text)) [] (tokens.map word) := by
  induction tokens with
  | nil => exact fun start done => ⟨[], rfl, rfl⟩
  | cons first others ih =>
    obtain ⟨hfirst, hothers⟩ := List.forall_mem_cons.mp h
    cases others with
    | nil =>
      rw [List.map_singleton, List.map_singleton, Text.join_singleton]
      exact hfirst [] (fun c hc => absurd hc (by simp))
    | cons second others =>
      have hspace : ∀ c ∈ (" " : Text), c.isBlank = true := by decide
      rw [List.map_cons, List.map_cons, List.map_cons, Text.join_cons_cons, ← List.map_cons, ← List.map_cons]
      exact (hfirst _ (by rw [List.append_assoc]; exact severs_blank _)).append
        ((Cuts.blanks hspace).append (ih hothers))

/-- Tokens spelled out with blanks in between are cut into the same tokens. -/
theorem exists_scan_spaced (h : scan t = .ok tokens) :
    ∃ found, scan (Text.join " " (tokens.map Token.text)) = .ok found ∧
      found.map word = tokens.map word :=
  (cuts_spaced tokens fun _ hmem _ hrest => cuts_of_mem h hmem hrest).exists_scan

/-! ## Texts that are not cut -/

/-- What is no token is a quote without its partner or begins no token at all. -/
theorem fault_of_lexeme (h : lexeme c rest = .error fault) :
    (fault = .unterminatedString ∧ (c.val = 39 ∨ c.val = 34) ∧ c ∉ rest) ∨ fault = .invalidCharacter c := by
  unfold lexeme at h
  split at h
  · cases h
  dsimp only at h
  split at h
  · cases h
  split at h
  · rename_i hquote
    cases htail : stringTail c rest with
    | some k =>
      rw [htail] at h
      cases h
    | none =>
      rw [htail] at h
      cases h
      refine .inl ⟨rfl, by simpa using hquote, fun hmem => ?_⟩
      unfold stringTail at htail
      dsimp only at htail
      split at htail
      · cases htail
      · rename_i hopen
        -- Then the string runs over the whole rest, and so over the quote in it.
        have hwhole : rest.takeWhile (· != c) = rest :=
          (List.takeWhile_prefix _).eq_of_length_le (Nat.le_of_not_lt hopen)
        have hne := List.takeWhile_eq_self_iff.mp hwhole c hmem
        simp at hne
  split at h
  · cases h
  · split at h
    · cases h
    · cases h
      exact .inr rfl

/-- A cut stops behind a text that is cut into tokens by itself. -/
theorem exists_of_scanFrom_error {done : List Token} (h : scanFrom start done t = .error fault) :
    ∃ front c rest tokens, t = front ++ c :: rest ∧ Lexes start front tokens ∧
      lexeme c rest = .error fault := by
  induction start, done, t using scanFrom.induct with
  | case1 start done =>
    unfold scanFrom at h
    cases h
  | case2 start done c rest found hlexeme =>
    unfold scanFrom at h
    simp only [hlexeme] at h
    cases h
    exact ⟨[], c, rest, [], rfl, .nil start, hlexeme⟩
  | case3 start done c rest kind n hlexeme stop done' ih =>
    have hn := le_of_lexeme hlexeme
    unfold scanFrom at h
    simp only [hlexeme] at h
    obtain ⟨front, d, more, tokens, hdrop, hlexes, hfault⟩ := ih h
    have hsplit : rest = rest.take n ++ (front ++ d :: more) := by rw [← hdrop, List.take_append_drop]
    have hlength : (rest.take n).length = n := List.length_take_of_le hn
    -- The first piece is the same if the text ends in front of the place where the cut stops.
    have hfirst : lexeme c (rest.take n ++ front) = .ok (kind, n) := by
      have htake : rest.take (n + front.length) = rest.take n ++ front := by
        conv_lhs => rw [hsplit, ← List.append_assoc]
        rw [List.take_left' (by rw [List.length_append, hlength])]
      rw [← htake]
      exact lexeme_take hlexeme (Nat.le_add_right n front.length)
    have hbehind : Lexes (start + n + 1) ((rest.take n ++ front).drop n) tokens := by
      rw [List.drop_left' hlength]
      exact hlexes
    refine ⟨c :: (rest.take n ++ front), d, more, ?_⟩
    have hwhole : c :: rest = c :: (rest.take n ++ front) ++ d :: more := by
      rw [List.cons_append, List.append_assoc, ← hsplit]
    cases kind with
    | none => exact ⟨tokens, hwhole, .blank hfirst hbehind, hfault⟩
    | some kind => exact ⟨_, hwhole, .token hfirst hbehind, hfault⟩

theorem exists_of_scan_error (h : scan t = .error fault) :
    ∃ front c rest tokens, t = front ++ c :: rest ∧ scan front = .ok tokens ∧
      ((fault = .unterminatedString ∧ (c.val = 39 ∨ c.val = 34) ∧ c ∉ rest) ∨
        fault = .invalidCharacter c) := by
  obtain ⟨front, c, rest, tokens, rfl, hlexes, hfault⟩ := exists_of_scanFrom_error h
  exact ⟨front, c, rest, tokens, rfl, scan_iff.mpr hlexes, fault_of_lexeme hfault⟩

/-- Lines and expressions that are not cut into tokens are bad syntax. -/
theorem refused_of_scan_error (h : scan t = .error fault) :
    Line.readAssignment? t = .error (.error ⟨.badSyntax, fault.message, t⟩) ∧
    ∀ (levels : Nat) (text : Text), text.trim = t →
      Evaluation.read levels text = .error (.error ⟨.badSyntax, fault.message, t⟩) := by
  constructor
  · unfold Line.readAssignment?
    rw [h]
    rfl
  · rintro levels text rfl
    unfold Evaluation.read Expr.parse Expr.parseWhole
    rw [h]
    rfl

/-! ## Every text -/

/-- A text is tiled by its tokens, with its end behind them, and they are the same in its pieces and spelled
out anew; or it is bad syntax from one place on. -/
theorem scan_tiles (t : Text) :
    (∃ tokens, scan t = .ok tokens ∧ Tiles t 0 tokens ∧
      (tokenize t = .ok (tokens.map listed ++ [endOf t]) ∧
        Covers t 0 (tokens.map listed ++ [endOf t])) ∧
      (∀ i k first last, tokens[i]? = some first → tokens[i + k]? = some last →
        ∃ found, scan (Span.of ⟨first.start, last.stop⟩ t) = .ok found ∧
          found.map (moved first.start) = (tokens.drop i).take (k + 1)) ∧
      ∃ found, scan (Text.join " " (tokens.map Token.text)) = .ok found ∧
        found.map word = tokens.map word) ∨
    ∃ fault, scan t = .error fault ∧
      (∃ front c rest tokens, t = front ++ c :: rest ∧ scan front = .ok tokens ∧
        ((fault = .unterminatedString ∧ (c.val = 39 ∨ c.val = 34) ∧ c ∉ rest) ∨
          fault = .invalidCharacter c)) ∧
      Line.readAssignment? t = .error (.error ⟨.badSyntax, fault.message, t⟩) ∧
      ∀ (levels : Nat) (text : Text), text.trim = t →
        Evaluation.read levels text = .error (.error ⟨.badSyntax, fault.message, t⟩) := by
  cases hscan : scan t with
  | ok tokens =>
    have htiles := tiles_of_scan hscan
    exact .inl ⟨tokens, rfl, htiles, ⟨tokenize_of_scan hscan, htiles.covers⟩,
      fun i k first last hfirst hlast => exists_scan_between hscan hfirst hlast, exists_scan_spaced hscan⟩
  | error fault =>
    exact .inr ⟨fault, rfl, exists_of_scan_error hscan, refused_of_scan_error hscan⟩

/-- The last two tokens of three. -/
theorem scan_tiles_last_two : ∃ found, scan "-=.5e1" = .ok found ∧
    found.map (moved 1) = [⟨.operator, "-=", 1, 3⟩, ⟨.number, ".5e1", 3, 7⟩] := by
  have htokens : scan "a-=.5e1" =
      .ok [⟨.name, "a", 0, 1⟩, ⟨.operator, "-=", 1, 3⟩, ⟨.number, ".5e1", 3, 7⟩] :=
    scan_eq_ok (by decide +kernel)
  rcases scan_tiles "a-=.5e1" with ⟨tokens, hscan, -, -, hcut, -⟩ | ⟨fault, hfault, -⟩
  · obtain rfl := Except.ok.inj (htokens.symm.trans hscan)
    exact hcut 1 1 _ _ rfl rfl
  · rw [htokens] at hfault
    cases hfault

end Token

end Scriptlet
