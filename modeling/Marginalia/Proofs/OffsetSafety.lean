import Marginalia.Proofs.DepthCounting
import Marginalia.Proofs.OffsetScanner
import Marginalia.Proofs.Scanning

/-! # Byte offsets stay on boundaries

The scanner by byte offsets never fails and always ends, and it finds what the
scan of the characters finds. Each of its loops is followed by an invariant: the
offset it has come to is the length of a part of the text in front. A text may be
cut there, and since every round adds to that part, the rounds come to an end.
-/

namespace Marginalia

/-! ## Rounds that advance -/

section Rounds

variable {σ ρ : Type} {round : σ → Option (σ ⊕ ρ)} {state : σ} {result : ρ}

/-- The rounds from a state on go through a text. In every state that they come to, the
offset is inside the text and the text may be cut there, the round does not fail, and
if it goes on, then at a greater offset; and the rounds come to an end. -/
structure Advances (text : String) (offset : σ → Nat) (round : σ → Option (σ ⊕ ρ)) (start : σ) :
    Prop where
  inside : ∀ state, Visits round start state →
    offset state ≤ text.utf8ByteSize ∧ String.Pos.Raw.IsValid text ⟨offset state⟩
  grows : ∀ state, Visits round start state →
    ∃ outcome, round state = some outcome ∧
      ∀ next, outcome = .inl next → offset state < offset next
  ends : ∃ last result, Visits round start last ∧ round last = some (.inr result)

/-- A property of states by which every round ends with `result`, or goes on at a
greater offset with the property kept. -/
structure Steers (text : String) (offset : σ → Nat) (round : σ → Option (σ ⊕ ρ)) (result : ρ)
    (kept : σ → Prop) : Prop where
  boundary : ∀ state, kept state → String.Pos.Raw.IsValid text ⟨offset state⟩
  round_eq : ∀ state, kept state → round state = some (.inr result) ∨
    ∃ next, round state = some (.inl next) ∧ kept next ∧ offset state < offset next

namespace Steers

variable {text : String} {offset : σ → Nat} {kept : σ → Prop}

theorem kept_of_visits (h : Steers text offset round result kept) {start : σ}
    (hstart : kept start) (hvisits : Visits round start state) : kept state := by
  induction hvisits with
  | refl => exact hstart
  | tail _ hround ih =>
      rcases h.round_eq _ ih with hend | ⟨next, hnext, hkept, -⟩
      · exact absurd (Option.some.inj (hround.symm.trans hend)) Sum.inl_ne_inr
      · obtain rfl := Sum.inl.inj (Option.some.inj (hround.symm.trans hnext))
        exact hkept

/-- The offset grows in every round and stays inside the text, so the rounds end. -/
theorem ends_and_repeatRounds_eq (h : Steers text offset round result kept)
    (hstate : kept state) :
    (∃ last, Visits round state last ∧ round last = some (.inr result)) ∧
      repeatRounds offset text.utf8ByteSize round state = some result := by
  induction hleft : text.utf8ByteSize - offset state using Nat.strongRecOn generalizing state with
  | ind left ih =>
      rw [repeatRounds]
      rcases h.round_eq state hstate with hend | ⟨next, hnext, hkept, hlt⟩
      · rw [hend]
        exact ⟨⟨state, .refl, hend⟩, rfl⟩
      · have hinside : offset next ≤ text.utf8ByteSize := (h.boundary next hkept).le_utf8ByteSize
        obtain ⟨⟨last, hvisits, hend⟩, hresult⟩ := ih _ (by omega) hkept rfl
        rw [hnext]
        exact ⟨⟨last, .head hnext hvisits, hend⟩, (if_pos ⟨hlt, hinside⟩).trans hresult⟩

theorem repeatRounds_eq (h : Steers text offset round result kept) (hstate : kept state) :
    repeatRounds offset text.utf8ByteSize round state = some result :=
  (h.ends_and_repeatRounds_eq hstate).2

theorem advances (h : Steers text offset round result kept) {start : σ} (hstart : kept start) :
    Advances text offset round start := by
  refine ⟨?_, ?_, ?_⟩
  · intro state hvisits
    have hvalid := h.boundary state (h.kept_of_visits hstart hvisits)
    exact ⟨hvalid.le_utf8ByteSize, hvalid⟩
  · intro state hvisits
    rcases h.round_eq state (h.kept_of_visits hstart hvisits) with hend | ⟨next, hnext, -, hlt⟩
    · exact ⟨_, hend, fun _ hinl => absurd hinl.symm Sum.inl_ne_inr⟩
    · refine ⟨_, hnext, ?_⟩
      intro other hother
      obtain rfl := Sum.inl.inj hother
      exact hlt
  · obtain ⟨⟨last, hend⟩, -⟩ := h.ends_and_repeatRounds_eq hstart
    exact ⟨last, result, hend⟩

end Steers

end Rounds

/-! ## Offsets as lengths -/

theorem utf8Length_lt_append (front : List Char) {more : List Char} (h : more ≠ []) :
    utf8Length front < utf8Length (front ++ more) := by
  obtain ⟨c, rest, rfl⟩ := List.exists_cons_of_ne_nil h
  have hpos := c.utf8Size_pos
  rw [utf8Length_append, utf8Length_cons]
  omega

theorem utf8Length_lt_utf8ByteSize {text : String} {front back : List Char}
    (h : text.toList = front ++ back) (hback : back ≠ []) :
    utf8Length front < text.utf8ByteSize := by
  rw [← utf8Length_toList, h]
  exact utf8Length_lt_append front hback

theorem not_utf8Length_lt_utf8ByteSize (text : String) :
    ¬ utf8Length text.toList < text.utf8ByteSize := by
  rw [utf8Length_toList]
  exact Nat.lt_irrefl _

theorem utf8Length_add_size (front : List Char) (token : Token) :
    utf8Length front + token.size = utf8Length (front ++ token.chars) := by
  rw [utf8Length_append, Token.size]

namespace Token

theorem begins_ofList (token : Token) (text : List Char) :
    token.begins (String.ofList text) = (token.strip? text).isSome := by
  rw [Bool.eq_iff_iff, begins_iff, String.toList_ofList, Option.isSome_iff_exists,
    prefix_iff_exists_append]
  exact exists_congr fun rest => strip?_eq_some_iff.symm

/-- A newline is first met at the end of the line. -/
theorem indexFrom?_newline {line after : List Char} (hline : '\n' ∉ line)
    (hstops : ∀ c rest, after = c :: rest → c = '\n') (offset : Nat) :
    newline.indexFrom? offset (line ++ after) =
      if after = [] then none else some (offset + line.length) := by
  induction line generalizing offset with
  | nil =>
      cases after with
      | nil => rfl
      | cons c rest =>
          obtain rfl := hstops c rest rfl
          rfl
  | cons c line ih =>
      obtain ⟨hfirst, hlater⟩ := not_or.mp (mt List.mem_cons.mpr hline)
      have hskip : ¬ newline.chars.isPrefixOf (c :: (line ++ after)) = true := by
        rw [List.isPrefixOf_iff_prefix]
        exact not_prefix_of_first_ne hfirst
      rw [List.cons_append, indexFrom?, if_neg hskip, ih hlater, List.length_cons,
        Nat.add_assoc, Nat.add_comm 1]

theorem offset?_newline {line after : List Char} (hline : '\n' ∉ line)
    (hstops : ∀ c rest, after = c :: rest → c = '\n') :
    newline.offset? (String.ofList (line ++ after)) =
      if after = [] then none else some (utf8Length line) := by
  rw [offset?_eq, String.toList_ofList, indexFrom?_newline hline hstops, Nat.zero_add]
  split
  · rfl
  · rw [Option.map_some, List.take_left]

end Token

/-! ## Literals -/

namespace LiteralRule

/-- Going through the characters of a literal, the offset is the length of what has
been passed. -/
theorem stopFrom?_eq (rule : LiteralRule) {before text : List Char} {place : Nat}
    (hplace : before.length = place) :
    rule.stopFrom? (utf8Length before) text =
      (rule.closeFrom? place text).map fun close =>
        utf8Length ((before ++ text).take (close + 1)) := by
  fun_induction closeFrom? rule place text generalizing before with
  | case1 place => rfl
  | case2 place c hescape => rw [stopFrom?, if_pos hescape, Option.map_none]
  | case3 place c hescape d more ih =>
      have hnext := @ih (before ++ [c, d]) (by simp [hplace])
      rw [utf8Length_append, utf8Length_cons, utf8Length_cons, utf8Length_nil, Nat.add_zero,
        List.append_assoc, ← Nat.add_assoc] at hnext
      rw [stopFrom?, if_pos hescape, hnext]
      rfl
  | case4 place rest hescape =>
      unfold stopFrom?
      rw [if_neg hescape, if_pos rfl, Option.map_some, ← hplace, List.take_length_add_append]
      simp [utf8Length_append, utf8Length_cons]
  | case5 place c rest hescape hdelimiter ih =>
      have hnext := @ih (before ++ [c]) (by simp [hplace])
      rw [utf8Length_append, utf8Length_cons, utf8Length_nil, Nat.add_zero,
        List.append_assoc] at hnext
      unfold stopFrom?
      rw [if_neg hescape, if_neg hdelimiter, hnext]
      rfl

theorem stop?_eq {rule : LiteralRule} {code : String} {front text : List Char}
    (hcode : code.toList = front ++ rule.delimiter :: text) :
    rule.stop? code (utf8Length front) =
      some (utf8Length (front ++ (rule.read text).1.source)) := by
  have hinside : utf8Length front + rule.delimiter.utf8Size =
      utf8Length (front ++ [rule.delimiter]) := by
    rw [utf8Length_append, utf8Length_cons, utf8Length_nil, Nat.add_zero]
  have hsplit : code.toList = front ++ [rule.delimiter] ++ text := by
    rw [hcode, List.append_assoc, List.singleton_append]
  rw [stop?, hinside, slice?_from hsplit, Option.bind_eq_bind, Option.bind_some,
    String.toList_ofList, rule.stopFrom?_eq rfl, Option.some.injEq]
  rcases rule.exists_enclosed_or_dangles text with ⟨body, after, rfl, hbody⟩ | hdangles
  · rw [closeFrom?_eq_some_iff.mpr ⟨body, after, rfl, rfl, hbody⟩, read_append hbody,
      Option.map_some, Option.getD_some, Nat.add_assoc, List.take_length_add_append,
      List.take_length_add_append]
    simp [Segment.source]
  · rw [closeFrom?_eq_none_iff.mpr hdangles, read_of_dangles hdangles, Option.map_none,
      Option.getD_none, ← utf8Length_toList, hcode, Segment.source_openLiteral]

end LiteralRule

/-! ## Block comments -/

namespace BlockRule

theorem depthRound_eq {rule : BlockRule} {body : String} {front : List Char} {c : Char}
    {rest : List Char} (hbody : body.toList = front ++ c :: rest) (inner : Nat) :
    rule.depthRound body ⟨inner + 1, utf8Length front⟩ =
      if rule.closing.chars <+: c :: rest then
        match inner with
        | 0 => some (.inr (some (utf8Length front)))
        | outer + 1 => some (.inl ⟨outer + 1, utf8Length (front ++ rule.closing.chars)⟩)
      else if rule.opening.chars <+: c :: rest then
        some (.inl ⟨inner + 2, utf8Length (front ++ rule.opening.chars)⟩)
      else some (.inl ⟨inner + 1, utf8Length (front ++ [c])⟩) := by
  have hlt := utf8Length_lt_utf8ByteSize hbody (List.cons_ne_nil c rest)
  rw [depthRound, if_pos hlt, slice?_from hbody]
  simp only [Option.bind_eq_bind, Option.bind_some, Token.begins_iff, String.toList_ofList,
    utf8Length_append, Token.size, firstSize, utf8Length_cons, utf8Length_nil, Nat.add_zero,
    List.head?_cons, Option.elim_some]
  cases inner <;> rfl

/-- The search has come to the end of a part of the inside, and what is left to do has
the result of the whole search. -/
def Searches (rule : BlockRule) (body : String) (search : DepthSearch) : Prop :=
  ∃ front text inner, body.toList = front ++ text ∧ search = ⟨inner + 1, utf8Length front⟩ ∧
    (rule.balanceFrom? inner front.length text).map (fun place =>
      utf8Length (body.toList.take place)) = rule.closeOffset? body.toList

theorem searches_start (rule : BlockRule) (body : String) : rule.Searches body ⟨1, 0⟩ :=
  ⟨[], body.toList, 0, rfl, rfl, rfl⟩

theorem steers_depthRound (rule : BlockRule) (body : String) :
    Steers body DepthSearch.offset (rule.depthRound body) (rule.closeOffset? body.toList)
      (rule.Searches body) := by
  constructor
  · rintro _ ⟨front, text, inner, hbody, rfl, -⟩
    exact isValid_iff_exists_front.mpr ⟨front, text, hbody, rfl⟩
  · rintro _ ⟨front, text, inner, hbody, rfl, hresult⟩
    cases text with
    | nil =>
        have hend := not_utf8Length_lt_utf8ByteSize body
        rw [hbody, List.append_nil] at hend
        rw [balanceFrom?, Option.map_none] at hresult
        exact .inl (by rw [depthRound, if_neg hend, hresult])
    | cons c rest =>
        rw [depthRound_eq hbody]
        split
        next hclosing =>
          obtain ⟨after, hafter⟩ := hclosing
          rw [← hafter] at hbody hresult
          cases inner with
          | zero =>
              rw [balanceFrom?_closing_zero, Option.map_some, hbody, List.take_left] at hresult
              rw [hbody, ← hresult]
              exact .inl rfl
          | succ outer =>
              rw [balanceFrom?_closing] at hresult
              refine .inr ⟨_, rfl, ⟨front ++ rule.closing.chars, after, outer, ?_, rfl, ?_⟩,
                utf8Length_lt_append front rule.closing.chars_ne_nil⟩
              · rw [hbody, List.append_assoc]
              · rw [List.length_append, Token.length_chars, hresult]
        next hclosing =>
          split
          next hopening =>
            obtain ⟨after, hafter⟩ := hopening
            rw [← hafter] at hbody hresult hclosing
            rw [balanceFrom?_opening hclosing] at hresult
            refine .inr ⟨_, rfl, ⟨front ++ rule.opening.chars, after, inner + 1, ?_, rfl, ?_⟩,
              utf8Length_lt_append front rule.opening.chars_ne_nil⟩
            · rw [hbody, List.append_assoc]
            · rw [List.length_append, Token.length_chars, hresult]
          next hopening =>
            rw [balanceFrom?_other hclosing hopening] at hresult
            refine .inr ⟨_, rfl, ⟨front ++ [c], rest, inner, ?_, rfl, ?_⟩,
              utf8Length_lt_append front (List.cons_ne_nil c [])⟩
            · rw [hbody, List.append_assoc, List.singleton_append]
            · rw [List.length_append, List.length_singleton, hresult]

theorem closeIn?_eq (rule : BlockRule) (body : String) :
    rule.closeIn? body =
      some ((rule.close? body.toList).map fun place => utf8Length (body.toList.take place)) := by
  unfold closeIn? close?
  split
  · exact (rule.steers_depthRound body).repeatRounds_eq (rule.searches_start body)
  · rw [Token.offset?_eq]

end BlockRule

/-! ## Line comments -/

namespace LineRule

theorem admitsAt?_eq (rule : LineRule) {code : String} {front rest : List Char}
    (hcode : code.toList = front ++ rest) :
    rule.admitsAt? code (utf8Length front) = some (rule.admits front.getLast?) := by
  unfold admitsAt?
  split
  next => rw [slice?_to hcode, Option.map_some, String.toList_ofList]
  next hanywhere => simp [admits, hanywhere]

theorem markerRound_eq {rule : LineRule} {code : String} {front rest : List Char}
    (hcode : code.toList = front ++ rest) :
    rule.markerRound code (utf8Length front) =
      some (if (rule.marker.strip? rest).isSome then .inl (utf8Length (front ++ rule.marker.chars))
        else .inr (utf8Length front)) := by
  rw [markerRound, slice?_from hcode, Option.bind_eq_bind, Option.bind_some, utf8Length_add_size,
    Token.begins_ofList]

/-- `whole` is the text up to the end of the run of markers. The invariant: from the
offset on, copies of the marker make up the rest of it. -/
theorem steers_markerRound {rule : LineRule} {code : String} {whole body : List Char}
    (hcode : code.toList = whole ++ body) (hend : ¬ rule.marker.chars <+: body) :
    Steers code id (rule.markerRound code) (utf8Length whole) fun start =>
      ∃ front more, whole = front ++ (List.replicate more rule.marker.chars).flatten ∧
        start = utf8Length front := by
  constructor
  · rintro _ ⟨front, more, rfl, rfl⟩
    exact isValid_iff_exists_front.mpr ⟨front, _, by rw [hcode, List.append_assoc], rfl⟩
  · rintro _ ⟨front, more, rfl, rfl⟩
    rw [List.append_assoc] at hcode
    rw [markerRound_eq hcode]
    cases more with
    | zero =>
        rw [List.replicate_zero, List.flatten_nil, List.nil_append, List.append_nil,
          Token.strip?_eq_none_iff.mpr hend]
        exact .inl rfl
    | succ more =>
        rw [List.replicate_succ, List.flatten_cons, List.append_assoc,
          Token.strip?_eq_some_iff.mpr rfl]
        exact .inr ⟨_, rfl, ⟨front ++ rule.marker.chars, more, (List.append_assoc ..).symm, rfl⟩,
          utf8Length_lt_append front rule.marker.chars_ne_nil⟩

/-- The run of markers that follows the first one is passed over by rounds that
advance. -/
theorem advances_markerRound {rule : LineRule} {code : String} {front text : List Char}
    (hcode : code.toList = front ++ (rule.marker.chars ++ text)) :
    Advances code id (rule.markerRound code) (utf8Length front + rule.marker.size) := by
  obtain ⟨more, -, htext, hend⟩ :=
    Token.stripRun_eq_iff.mp (Prod.eta (rule.marker.stripRun 0 text)).symm
  rw [htext, ← List.append_assoc, ← List.append_assoc] at hcode
  rw [utf8Length_add_size]
  exact (steers_markerRound hcode hend).advances ⟨front ++ rule.marker.chars, more, rfl, rfl⟩

theorem bodyStart?_eq {rule : LineRule} {code : String} {front body : List Char} {more : Nat}
    (hcode : code.toList =
      front ++ ((List.replicate (more + 1) rule.marker.chars).flatten ++ body))
    (hsingle : rule.repeatable = false → more = 0)
    (hwhole : rule.repeatable = true → ¬ rule.marker.chars <+: body) :
    rule.bodyStart? code (utf8Length front) =
      some (utf8Length (front ++ (List.replicate (more + 1) rule.marker.chars).flatten)) := by
  rw [List.replicate_succ, List.flatten_cons] at hcode ⊢
  rw [bodyStart?, utf8Length_add_size]
  split
  next hrepeat =>
    rw [← List.append_assoc] at hcode
    apply (steers_markerRound hcode (hwhole hrepeat)).repeatRounds_eq
    exact ⟨front ++ rule.marker.chars, more, (List.append_assoc ..).symm, rfl⟩
  next hrepeat =>
    rw [hsingle (Bool.eq_false_iff.mpr hrepeat), List.replicate_zero, List.flatten_nil,
      List.append_nil]

theorem trimCarriage_eq {text : List Char} {carriage : Bool}
    (h : carriage = false → text.getLast? ≠ some '\r') :
    trimCarriage (String.ofList (text ++ ending carriage)) = String.ofList text := by
  unfold trimCarriage
  cases carriage with
  | true => simp [ending]
  | false => simp [ending, h rfl]

theorem readAt?_eq {rule : LineRule} {code : String} {front : List Char} {markers : Nat}
    {text : List Char} {carriage : Bool} {after : List Char}
    (hcode : code.toList = front ++ ((Segment.line rule markers text carriage).source ++ after))
    (h : rule.Spans markers text carriage after) :
    rule.readAt? code (utf8Length front) =
      some (String.ofList text,
        utf8Length (front ++ (Segment.line rule markers text carriage).source)) := by
  obtain ⟨more, rfl⟩ := Nat.exists_eq_add_of_le' h.marked
  have hline : '\n' ∉ text ++ ending carriage := by
    rw [List.mem_append, not_or]
    refine ⟨h.oneLine, ?_⟩
    cases carriage <;> decide
  have hsource : (Segment.line rule (more + 1) text carriage).source =
      (List.replicate (more + 1) rule.marker.chars).flatten ++ (text ++ ending carriage) := by
    rw [Segment.source, ending, List.append_assoc]
  rw [hsource, List.append_assoc] at hcode
  have hbody := bodyStart?_eq hcode (fun hrepeat => Nat.succ.inj (h.single hrepeat)) h.whole
  rw [← List.append_assoc] at hcode
  rw [hsource, ← List.append_assoc]
  generalize front ++ (List.replicate (more + 1) rule.marker.chars).flatten = whole at hcode hbody ⊢
  have hstop : (Token.newline.offset? (String.ofList (text ++ ending carriage ++ after))).elim
      code.utf8ByteSize (utf8Length whole + ·) = utf8Length (whole ++ (text ++ ending carriage)) := by
    rw [Token.offset?_newline hline h.stops]
    split
    next hend => rw [Option.elim_none, ← utf8Length_toList, hcode, hend, List.append_nil]
    next => rw [Option.elim_some, ← utf8Length_append]
  rw [readAt?, hbody]
  simp only [Option.bind_eq_bind, Option.bind_some, slice?_from hcode, hstop,
    slice?_eq_some hcode, trimCarriage_eq h.trimmed]

end LineRule

/-! ## What starts at an offset -/

namespace Grammar

theorem find?_begins_eq_none {grammar : Grammar} {text : List Char}
    (h : grammar.NoVerbatim text) :
    grammar.verbatim.find? (·.begins (String.ofList text)) = none := by
  rw [List.find?_eq_none]
  intro token htoken hbegins
  rw [Token.begins_iff, String.toList_ofList] at hbegins
  exact h token htoken hbegins

theorem find?_begins_eq_some {grammar : Grammar} {earlier later : List Token} {token : Token}
    {text : List Char} (hlisted : grammar.verbatim = earlier ++ token :: later)
    (hfirst : ∀ other ∈ earlier, ¬ other.chars <+: text) (htoken : token.chars <+: text) :
    grammar.verbatim.find? (·.begins (String.ofList text)) = some token := by
  rw [List.find?_eq_some_iff_append]
  refine ⟨?_, earlier, later, hlisted, ?_⟩
  · rw [Token.begins_iff, String.toList_ofList]
    exact htoken
  · intro other hother
    rw [Bool.not_eq_true', ← Bool.not_eq_true, Token.begins_iff, String.toList_ofList]
    exact hfirst other hother

theorem literalRule?_eq_none {grammar : Grammar} {text : List Char} (h : grammar.NoLiteral text) :
    grammar.literalRule? (String.ofList text) = none := by
  rw [literalRule?, String.toList_ofList, Option.bind_eq_none_iff]
  intro c hc
  rw [List.find?_eq_none]
  intro rule hrule hdelimiter
  rw [decide_eq_true_eq] at hdelimiter
  exact h rule hrule (by rw [hc, hdelimiter])

theorem literalRule?_eq_some {grammar : Grammar} {earlier later : List LiteralRule}
    {rule : LiteralRule} (hlisted : grammar.literals = earlier ++ rule :: later)
    (hfirst : ∀ other ∈ earlier, other.delimiter ≠ rule.delimiter) (rest : List Char) :
    grammar.literalRule? (String.ofList (rule.delimiter :: rest)) = some rule := by
  rw [literalRule?, String.toList_ofList, List.head?_cons, Option.bind_some,
    List.find?_eq_some_iff_append]
  exact ⟨by simp, earlier, later, hlisted, by simpa using hfirst⟩

theorem blockRule?_eq (grammar : Grammar) (text : List Char) :
    grammar.blockRule? (String.ofList text) = (grammar.blockAt? text).map Prod.fst := by
  unfold blockRule? blockAt?
  cases grammar.block with
  | none => rfl
  | some rule => cases hstrip : rule.opening.strip? text <;> simp [Token.begins_ofList, hstrip]

theorem lineRule?_eq (grammar : Grammar) {code : String} {front rest : List Char}
    (hcode : code.toList = front ++ rest) :
    grammar.lineRule? code (utf8Length front) (String.ofList rest) =
      some ((grammar.lineAt? front.getLast? rest).map Prod.fst) := by
  unfold lineRule? lineAt?
  cases grammar.line with
  | none => rfl
  | some rule =>
      have hadmits := rule.admitsAt?_eq hcode
      cases hstrip : rule.marker.strip? rest with
      | none => simp [Token.begins_ofList, hstrip]
      | some body =>
          cases hcounts : rule.admits front.getLast? <;>
            simp [Token.begins_ofList, hstrip, hadmits, hcounts]

theorem Reads.source_ne_nil {grammar : Grammar} {previous : Option Char} {segment : Segment}
    {after : List Char} (h : grammar.Reads previous segment after) : segment.source ≠ [] := by
  obtain ⟨c, rest, hsource⟩ := h.exists_source_eq_cons
  rw [hsource]
  exact List.cons_ne_nil c rest

end Grammar

/-! ## One round of the scanner -/

namespace Scanner

theorem readBlock_of_closes {rule : BlockRule} {code : String} {front body after : List Char}
    (hcode : code.toList = front ++ ((Segment.block rule body).source ++ after))
    (h : rule.Closes body after) (comments : List Comment) :
    readBlock ⟨utf8Length front, comments⟩ rule code =
      some (.inl (found ⟨utf8Length front, comments⟩ code (.block (String.ofList body))
        (utf8Length (front ++ (Segment.block rule body).source)))) := by
  have hsplit : code.toList =
      front ++ rule.opening.chars ++ (body ++ (rule.closing.chars ++ after)) := by
    rw [hcode, Segment.source_block_append, List.append_assoc]
  have hclose : rule.closeIn? (String.ofList (body ++ (rule.closing.chars ++ after))) =
      some (some (utf8Length body)) := by
    rw [BlockRule.closeIn?_eq, String.toList_ofList,
      BlockRule.close?_eq_some_iff.mpr ⟨body, after, rfl, rfl, h⟩, Option.map_some, List.take_left]
  have hnext : utf8Length (front ++ rule.opening.chars) + utf8Length body + rule.closing.size =
      utf8Length (front ++ (Segment.block rule body).source) := by
    rw [← utf8Length_append, utf8Length_add_size, Segment.source]
    simp only [List.append_assoc]
  unfold readBlock
  simp only [utf8Length_add_size, slice?_from hsplit, Option.bind_eq_bind, Option.bind_some,
    hclose, slice?_to String.toList_ofList, hnext]

theorem readBlock_of_dangles {rule : BlockRule} {code : String} {front body : List Char}
    (hcode : code.toList = front ++ (rule.opening.chars ++ body)) (h : rule.Dangles body)
    (comments : List Comment) :
    readBlock ⟨utf8Length front, comments⟩ rule code =
      some (.inr (.error ⟨(LineTable.ofText code.toList).lineAt (utf8Length front)⟩)) := by
  have hclose : rule.close? body = none :=
    Option.map_eq_none_iff.mp (BlockRule.read?_eq_none_iff.mpr h)
  rw [← List.append_assoc] at hcode
  unfold readBlock
  simp only [utf8Length_add_size, slice?_from hcode, Option.bind_eq_bind, Option.bind_some,
    BlockRule.closeIn?_eq, String.toList_ofList, hclose, Option.map_none]

theorem round_of_literal {grammar : Grammar} {earlier later : List LiteralRule}
    {rule : LiteralRule} {code : String} {front text : List Char}
    (hcode : code.toList = front ++ rule.delimiter :: text)
    (hverbatim : grammar.NoVerbatim (rule.delimiter :: text))
    (hlisted : grammar.literals = earlier ++ rule :: later)
    (hfirst : ∀ other ∈ earlier, other.delimiter ≠ rule.delimiter) (comments : List Comment) :
    round grammar code ⟨utf8Length front, comments⟩ =
      some (.inl ⟨utf8Length (front ++ (rule.read text).1.source), comments⟩) := by
  have hlt := utf8Length_lt_utf8ByteSize hcode (List.cons_ne_nil _ _)
  unfold round
  simp only [hlt, if_true, slice?_from hcode, Option.bind_eq_bind, Option.bind_some,
    grammar.lineRule?_eq hcode, Grammar.find?_begins_eq_none hverbatim,
    Grammar.literalRule?_eq_some hlisted hfirst, LiteralRule.stop?_eq hcode]

/-- Where neither a verbatim token nor a literal starts, a comment may open. -/
theorem round_of_noLiteral {grammar : Grammar} {code : String} {front text : List Char}
    (hcode : code.toList = front ++ text) (htext : text ≠ [])
    (hverbatim : grammar.NoVerbatim text) (hliteral : grammar.NoLiteral text)
    (comments : List Comment) :
    round grammar code ⟨utf8Length front, comments⟩ =
      match grammar.blockAt? text, grammar.lineAt? front.getLast? text with
      | some (rule, _), _ => readBlock ⟨utf8Length front, comments⟩ rule code
      | none, some (rule, _) => readLine ⟨utf8Length front, comments⟩ rule code
      | none, none => some (.inl ⟨utf8Length front + firstSize (String.ofList text), comments⟩) := by
  have hlt := utf8Length_lt_utf8ByteSize hcode htext
  unfold round
  simp only [hlt, if_true, slice?_from hcode, Option.bind_eq_bind, Option.bind_some,
    grammar.lineRule?_eq hcode, Grammar.find?_begins_eq_none hverbatim,
    Grammar.literalRule?_eq_none hliteral, grammar.blockRule?_eq]
  cases grammar.blockAt? text with
  | some found => rfl
  | none => cases grammar.lineAt? front.getLast? text <;> rfl

/-- A round passes over the segment that is read where it starts. -/
theorem round_of_reads {grammar : Grammar} {code : String} {front after : List Char}
    {segment : Segment} (hcode : code.toList = front ++ (segment.source ++ after))
    (h : grammar.Reads front.getLast? segment after) (comments : List Comment) :
    round grammar code ⟨utf8Length front, comments⟩ =
      some (.inl ⟨utf8Length (front ++ segment.source), comments ++
        (segment.comment? ((LineTable.ofText code.toList).lineAt (utf8Length front))).toList⟩) := by
  have htext : segment.source ++ after ≠ [] :=
    List.append_ne_nil_of_left_ne_nil h.source_ne_nil after
  cases h with
  | @verbatim _ _ token _ hlisted hfirst =>
      have hlt := utf8Length_lt_utf8ByteSize hcode htext
      change code.toList = front ++ (token.chars ++ after) at hcode
      have hfind := Grammar.find?_begins_eq_some hlisted hfirst (List.prefix_append _ _)
      unfold round
      simp only [hlt, if_true, slice?_from hcode, Option.bind_eq_bind, Option.bind_some,
        grammar.lineRule?_eq hcode, Segment.source, hfind, utf8Length_add_size,
        Segment.comment?, Option.toList_none, List.append_nil]
  | @literal _ _ rule body _ hverbatim hlisted hfirst hbody =>
      rw [Segment.source_literal_append] at hcode
      rw [round_of_literal hcode hverbatim hlisted hfirst, LiteralRule.read_append hbody]
      simp only [Segment.comment?, Option.toList_none, List.append_nil]
  | @openLiteral _ _ rule body hverbatim hlisted hfirst hdangles =>
      rw [Segment.source_openLiteral, List.append_nil] at hcode
      rw [round_of_literal hcode hverbatim hlisted hfirst, LiteralRule.read_of_dangles hdangles]
      simp only [Segment.comment?, Option.toList_none, List.append_nil]
  | @block rule body _ hverbatim hliteral hlisted hcloses =>
      rw [round_of_noLiteral hcode htext hverbatim hliteral,
        Grammar.blockAt?_eq_some_iff.mpr ⟨hlisted, Segment.source_block_append rule body after⟩]
      exact readBlock_of_closes hcode hcloses comments
  | @line rule markers text carriage _ hverbatim hliteral hblock hlisted hcounts hspans =>
      obtain ⟨more, rfl⟩ := Nat.exists_eq_add_of_le' hspans.marked
      have hmarker : (Segment.line rule (more + 1) text carriage).source ++ after =
          rule.marker.chars ++ ((List.replicate more rule.marker.chars).flatten ++
            (text ++ LineRule.ending carriage) ++ after) := by
        rw [LineRule.source_line, List.append_assoc]
      rw [round_of_noLiteral hcode htext hverbatim hliteral,
        Grammar.blockAt?_eq_none_iff.mpr hblock,
        Grammar.lineAt?_eq_some_iff.mpr ⟨hlisted, hcounts, hmarker⟩]
      simp only [readLine, LineRule.readAt?_eq hcode hspans, Option.bind_eq_bind, Option.bind_some]
      rfl
  | @plain c _ hverbatim hliteral hblock hline =>
      rw [round_of_noLiteral hcode htext hverbatim hliteral]
      change grammar.NoBlock ((Segment.plain c).source ++ after) at hblock
      change grammar.NoLine _ ((Segment.plain c).source ++ after) at hline
      rw [Grammar.blockAt?_eq_none_iff.mpr hblock, Grammar.lineAt?_eq_none_iff.mpr hline]
      simp [firstSize, Segment.source, utf8Length_append, utf8Length_cons, Segment.comment?]

theorem round_of_stuck {grammar : Grammar} {code : String} {front rest : List Char}
    (hcode : code.toList = front ++ rest) (h : grammar.Stuck rest) (comments : List Comment) :
    round grammar code ⟨utf8Length front, comments⟩ =
      some (.inr (.error ⟨(LineTable.ofText code.toList).lineAt (utf8Length front)⟩)) := by
  obtain ⟨rule, body, hlisted, rfl, hdangles⟩ := h.opens
  rw [round_of_noLiteral hcode (List.cons_ne_nil _ _) h.noVerbatim h.noLiteral,
    Grammar.blockAt?_eq_some_iff.mpr ⟨hlisted, rfl⟩]
  exact readBlock_of_dangles hcode hdangles comments

theorem round_at_end (grammar : Grammar) (code : String) (comments : List Comment) :
    round grammar code ⟨utf8Length code.toList, comments⟩ = some (.inr (.ok comments)) := by
  rw [round, if_neg (not_utf8Length_lt_utf8ByteSize code)]

/-! ## All rounds -/

/-- The scanner has passed over segments of the text and found their comments. -/
def Passes (grammar : Grammar) (code : String) (scanner : Scanner) : Prop :=
  ∃ segments rest, grammar.Cuts none code.toList segments rest ∧
    scanner = ⟨utf8Length (Segment.sources segments), Segment.commentsFrom 1 segments⟩

theorem passes_start (grammar : Grammar) (code : String) : Passes grammar code start :=
  ⟨[], code.toList, .nil, rfl⟩

theorem steers_round (grammar : Grammar) (code : String) :
    Steers code Scanner.offset (round grammar code) (grammar.scan code)
      (Passes grammar code) := by
  constructor
  · rintro _ ⟨segments, rest, hcuts, rfl⟩
    exact isValid_iff_exists_front.mpr ⟨_, rest, hcuts.text_eq, rfl⟩
  · rintro _ ⟨segments, rest, hcuts, rfl⟩
    have hcode := hcuts.text_eq
    have hline : (LineTable.ofText code.toList).lineAt (utf8Length (Segment.sources segments)) =
        1 + (Segment.sources segments).count '\n' := by
      rw [hcode, LineTable.lineAt_utf8Length]
    cases rest with
    | nil =>
        rw [List.append_nil] at hcode
        rw [← hcode, round_at_end, Grammar.IsSegmentation.scan_eq hcuts]
        exact .inl rfl
    | cons c tail =>
        rcases grammar.exists_reads_or_stuck (Segment.sources segments).getLast? c tail with
          ⟨segment, after, htext, hreads⟩ | hstuck
        · rw [htext] at hcode hcuts
          refine .inr ⟨_, round_of_reads hcode hreads _, ⟨segments ++ [segment], after, ?_, ?_⟩, ?_⟩
          · refine hcuts.append ?_
            rw [Option.or_none]
            exact .cons hreads .nil
          · rw [hline, Segment.sources_append, Segment.commentsFrom_append]
            simp [Segment.commentsFrom]
          · exact utf8Length_lt_append _ hreads.source_ne_nil
        · rw [round_of_stuck hcode hstuck, hcuts.scan_eq_of_stuck hstuck, hline]
          exact .inl rfl

/-- Scanning by byte offsets is safe and advances. The scanner ends without a failure,
so it never cuts a text off a boundary or out of bounds, and its result is that of the
scan. In every state of its loop the offset is a boundary inside the text, and each
round starts at a greater offset than the one before; so it is with the rounds that
pass over a run of markers, and with those that look for the end of a nesting comment,
wherever these are begun. -/
theorem run_stays_on_boundaries (grammar : Grammar) (code : String) :
    run grammar code = some (grammar.scan code) ∧
    Advances code Scanner.offset (round grammar code) start ∧
    ∀ scanner rest, Visits (round grammar code) start scanner →
      slice? code scanner.offset code.utf8ByteSize = some rest →
      (∀ rule, grammar.line = some rule → rule.marker.begins rest = true →
        Advances code id (rule.markerRound code) (scanner.offset + rule.marker.size)) ∧
      ∀ rule, grammar.block = some rule → rule.opening.begins rest = true →
        ∃ body, slice? code (scanner.offset + rule.opening.size) code.utf8ByteSize = some body ∧
          Advances body BlockRule.DepthSearch.offset (rule.depthRound body) ⟨1, 0⟩ := by
  have hsteers := steers_round grammar code
  have hstart := passes_start grammar code
  refine ⟨hsteers.repeatRounds_eq hstart, hsteers.advances hstart, ?_⟩
  intro scanner rest hvisits hrest
  obtain ⟨segments, text, hcuts, rfl⟩ := hsteers.kept_of_visits hstart hvisits
  have hcode := hcuts.text_eq
  rw [slice?_from hcode] at hrest
  obtain rfl := Option.some.inj hrest
  refine ⟨?_, ?_⟩
  · intro rule _ hmarker
    rw [Token.begins_iff, String.toList_ofList] at hmarker
    obtain ⟨body, rfl⟩ := hmarker
    exact LineRule.advances_markerRound hcode
  · intro rule _ hopening
    rw [Token.begins_iff, String.toList_ofList] at hopening
    obtain ⟨body, rfl⟩ := hopening
    rw [← List.append_assoc] at hcode
    refine ⟨String.ofList body, ?_, ?_⟩
    · rw [utf8Length_add_size, slice?_from hcode]
    · exact (rule.steers_depthRound _).advances (rule.searches_start _)

/-- A marker of one character that takes three bytes. -/
def arrow : LineRule :=
  ⟨⟨'→', []⟩, true, false⟩

/-- A nesting comment whose tokens begin or end with two bytes for one character. -/
def quoted : BlockRule :=
  ⟨⟨'«', ['*']⟩, ⟨'*', ['»']⟩, true⟩

def arrows : Grammar :=
  ⟨[], [], some arrow, some quoted⟩

/-- After the first character, which takes two bytes, stand a run of markers in one text
and a comment that opens and never closes in another. -/
theorem run_stays_on_boundaries_arrows :
    run arrows "é→→ü" = some (.ok [.single "ü" 1]) ∧
      Visits (round arrows "é→→ü") start ⟨2, []⟩ ∧
      Advances "é→→ü" id (arrow.markerRound "é→→ü") 5 ∧
      run arrows "é«*ö«*»" = some (.error ⟨1⟩) ∧
      Visits (round arrows "é«*ö«*»") start ⟨2, []⟩ ∧
      ∃ body, slice? "é«*ö«*»" 5 12 = some body ∧
        Advances body BlockRule.DepthSearch.offset (quoted.depthRound body) ⟨1, 0⟩ := by
  obtain ⟨hrun, -, hline⟩ := run_stays_on_boundaries arrows "é→→ü"
  obtain ⟨hstuck, -, hblock⟩ := run_stays_on_boundaries arrows "é«*ö«*»"
  have hscan : arrows.scan "é→→ü" = .ok [.single "ü" 1] := by
    decide +kernel
  have hfail : arrows.scan "é«*ö«*»" = .error ⟨1⟩ := by
    decide +kernel
  have hfirst : Visits (round arrows "é→→ü") start ⟨2, []⟩ :=
    .single (by decide +kernel)
  have hother : Visits (round arrows "é«*ö«*»") start ⟨2, []⟩ :=
    .single (by decide +kernel)
  refine ⟨hrun.trans (congrArg some hscan), hfirst, ?_, hstuck.trans (congrArg some hfail),
    hother, ?_⟩
  · have hrest : slice? "é→→ü" 2 "é→→ü".utf8ByteSize = some "→→ü" := by
      decide +kernel
    exact (hline _ _ hfirst hrest).1 arrow rfl (by decide +kernel)
  · have hrest : slice? "é«*ö«*»" 2 "é«*ö«*»".utf8ByteSize = some "«*ö«*»" := by
      decide +kernel
    exact (hblock _ _ hother hrest).2 quoted rfl (by decide +kernel)

end Scanner

end Marginalia
