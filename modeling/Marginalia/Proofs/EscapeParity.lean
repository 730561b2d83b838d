import Mathlib.Logic.Basic
import Marginalia.Proofs.LineCount
import Marginalia.Proofs.Literals

/-! # Escapes by parity

Reading a literal forwards, an escape takes the next character along. Looking
backwards from a delimiter, the same is told by the run of escapes in front of
it: the delimiter is free if the run has even length. A literal therefore ends
after the first delimiter with an even run, and if there is none it goes on to
the end of the text.
-/

namespace Marginalia

namespace LiteralRule

/-! ## Runs at the end of a text -/

/-- The length of the longest run of a character that a text ends in. -/
def endRun (c : Char) (text : List Char) : Nat :=
  (text.reverse.takeWhile (· = c)).length

@[simp] theorem endRun_nil (c : Char) : endRun c [] = 0 := rfl

theorem endRun_le_length (c : Char) (text : List Char) : endRun c text ≤ text.length := by
  have hle := (List.takeWhile_sublist (l := text.reverse) (· = c)).length_le
  rwa [List.length_reverse] at hle

/-- A character in front counts only where the run reaches it. -/
theorem endRun_cons (c d : Char) (text : List Char) :
    endRun c (d :: text) =
      if d = c ∧ endRun c text = text.length then endRun c text + 1 else endRun c text := by
  unfold endRun
  rw [List.reverse_cons, List.takeWhile_append, List.length_reverse]
  by_cases hrun : (text.reverse.takeWhile (· = c)).length = text.length
  · by_cases hd : d = c
    · simp [hrun, hd]
    · simp [hrun, hd]
  · simp [hrun]

theorem endRun_cons_of_ne {c d : Char} (h : d ≠ c) (text : List Char) :
    endRun c (d :: text) = endRun c text := by
  rw [endRun_cons, if_neg fun hboth => h hboth.1]

/-- A character with what stands after it makes a pair, which does not change the
parity of the run behind the pair. -/
theorem endRun_pair_mod_two (c d : Char) (text : List Char) :
    endRun c (c :: d :: text) % 2 = endRun c text % 2 := by
  have hle := endRun_le_length c text
  rw [endRun_cons, endRun_cons, List.length_cons]
  by_cases hpair : d = c ∧ endRun c text = text.length
  · rw [if_pos hpair, if_pos ⟨rfl, congrArg (· + 1) hpair.2⟩]
    omega
  · rw [if_neg hpair, if_neg (by omega)]

/-! ## Units by parity -/

/-- No delimiter inside the body has a front with the property. -/
def NoneBefore (d : Char) (closes : List Char → Prop) (body : List Char) : Prop :=
  ∀ front back, body = front ++ d :: back → ¬ closes front

theorem noneBefore_nil (d : Char) (closes : List Char → Prop) : NoneBefore d closes [] := by
  intro front back h
  exact absurd h (List.append_ne_nil_of_right_ne_nil _ (List.cons_ne_nil _ _)).symm

/-- The first character of a body is passed: it is no delimiter that closes, and
the fronts behind it have the property of the fronts with it. -/
theorem noneBefore_cons {d c : Char} {closes closes' : List Char → Prop} {body : List Char}
    (hfirst : c = d → ¬ closes []) (hshift : ∀ front, closes (c :: front) ↔ closes' front) :
    NoneBefore d closes (c :: body) ↔ NoneBefore d closes' body := by
  constructor
  · rintro hnone front back rfl
    rw [← hshift]
    exact hnone (c :: front) back rfl
  · intro hnone front back hbody
    cases front with
    | nil => exact hfirst (List.cons.inj hbody).1
    | cons x front =>
        obtain ⟨rfl, rfl⟩ := List.cons.inj hbody
        rw [hshift]
        exact hnone front back rfl

/-- The property by which a delimiter is free of the escape `e`. -/
def EvenRun (e : Char) (front : List Char) : Prop :=
  endRun e front % 2 = 0

theorem not_evenRun_singleton (e : Char) : ¬ EvenRun e [e] := by
  simp [EvenRun, endRun_cons]

/-- A body consists of units exactly if it ends in an even run of escapes and every
delimiter in it stands after an odd one. -/
theorem units_iff_evenRun {rule : LiteralRule} {e : Char} (hescape : rule.escape = some e)
    (hne : e ≠ rule.delimiter) (body : List Char) :
    rule.Units body ↔ EvenRun e body ∧ NoneBefore rule.delimiter (EvenRun e) body := by
  -- the recursion of the search, which steps over an escape together with its character
  induction 0, body using closeFrom?.induct rule with
  | case1 => exact iff_of_true .nil ⟨rfl, noneBefore_nil _ _⟩
  | case2 offset c hc =>
      obtain rfl := Option.some.inj (hc.trans hescape)
      refine iff_of_false (not_units_lone_escape hescape) ?_
      rintro ⟨heven, -⟩
      exact not_evenRun_singleton c heven
  | case3 offset c hc x more ih =>
      obtain rfl := Option.some.inj (hc.trans hescape)
      have hpair (front : List Char) : EvenRun c (c :: x :: front) ↔ EvenRun c front := by
        rw [EvenRun, endRun_pair_mod_two, EvenRun]
      -- a delimiter right behind the escape stands after a run of one
      rw [units_cons_cons_iff hescape, ih, hpair, noneBefore_cons (fun h => absurd h hne)
        (fun _ => Iff.rfl), noneBefore_cons (fun _ => not_evenRun_singleton c) hpair]
  | case4 offset rest hc =>
      rw [units_cons_iff (Ne.symm hc)]
      refine iff_of_false (fun h => h.1 rfl) ?_
      rintro ⟨-, hnone⟩
      exact hnone [] rest rfl rfl
  | case5 offset c rest hc hdelimiter ih =>
      have hce : c ≠ e := by
        rintro rfl
        exact hc hescape.symm
      have hskip (front : List Char) : EvenRun e (c :: front) ↔ EvenRun e front := by
        rw [EvenRun, endRun_cons_of_ne hce, EvenRun]
      rw [units_cons_iff (Ne.symm hc), ih, hskip,
        noneBefore_cons (fun h => absurd h hdelimiter) hskip]
      exact and_iff_right hdelimiter

/-- Without an escape, a body consists of units exactly if no delimiter is in it. -/
theorem units_iff_noneBefore {rule : LiteralRule} (hescape : rule.escape = none)
    (body : List Char) :
    rule.Units body ↔ NoneBefore rule.delimiter (fun _ => True) body := by
  have hnot (c : Char) : rule.escape ≠ some c := by
    rw [hescape]
    exact (Option.some_ne_none c).symm
  induction body with
  | nil => exact iff_of_true .nil (noneBefore_nil _ _)
  | cons c rest ih =>
      rw [units_cons_iff (hnot c)]
      by_cases hdelimiter : c = rule.delimiter
      · refine iff_of_false (fun h => h.1 hdelimiter) fun hnone => ?_
        exact hnone [] rest (by rw [hdelimiter, List.nil_append]) trivial
      · rw [noneBefore_cons (fun h => absurd h hdelimiter) (fun _ => Iff.rfl)]
        exact (and_iff_right hdelimiter).trans ih

/-! ## Where a literal ends -/

/-- The byte offset just past the literal that opens at `start`, `text` being what
stands after its opening delimiter. -/
def endOffset (rule : LiteralRule) (start : Nat) (text : List Char) : Nat :=
  start + (rule.read text).1.size

/-- The offset just past the first delimiter of `text` whose front has a property,
and what stands there; the end of the code if there is no such delimiter. The text
follows `pre` and an opening delimiter. -/
inductive PastFirst (d : Char) (closes : List Char → Prop) (code : String)
    (pre text : List Char) : Nat → List Char → Prop where
  | found {front after : List Char} (split : text = front ++ d :: after) (free : closes front)
      (first : ∀ other rest, text = other ++ d :: rest → closes other →
        front.length ≤ other.length) :
      PastFirst d closes code pre text (utf8Length (pre ++ d :: (front ++ [d]))) after
  | missing (none : ∀ front after, text = front ++ d :: after → ¬ closes front) :
      PastFirst d closes code pre text code.utf8ByteSize []

/-- A delimiter in front of the end of the body is inside the body. -/
theorem length_le_of_noneBefore {d : Char} {closes : List Char → Prop} {body : List Char}
    (h : NoneBefore d closes body) {after other rest : List Char}
    (htext : body ++ d :: after = other ++ d :: rest) (hother : closes other) :
    body.length ≤ other.length := by
  apply Nat.le_of_not_lt
  intro hshort
  obtain ⟨tail, rfl⟩ : other <+: body :=
    List.prefix_of_prefix_length_le ⟨_, htext.symm⟩ (List.prefix_append _ _) (Nat.le_of_lt hshort)
  cases tail with
  | nil => simp at hshort
  | cons c tail =>
      rw [List.append_assoc] at htext
      obtain ⟨rfl, -⟩ := List.cons.inj (List.append_cancel_left htext)
      exact h other tail rfl hother

theorem endOffset_of_dangles {code : String} {rule : LiteralRule} {pre text : List Char}
    (hcode : code.toList = pre ++ rule.delimiter :: text) (h : rule.Dangles text) :
    rule.endOffset (utf8Length pre) text = code.utf8ByteSize := by
  rw [endOffset, read_of_dangles h, ← utf8Length_toList, hcode, utf8Length_append]
  simp [Segment.size, Segment.source]

/-- Of the delimiters whose front has a property, one comes first. -/
theorem exists_noneBefore {d : Char} {closes : List Char → Prop} {front : List Char}
    (h : closes front) (after : List Char) :
    ∃ short rest, front ++ d :: after = short ++ d :: rest ∧ closes short ∧
      NoneBefore d closes short := by
  induction hlength : front.length using Nat.strongRecOn generalizing front after with
  | _ length ih =>
      by_cases hnone : NoneBefore d closes front
      · exact ⟨front, after, rfl, h, hnone⟩
      · simp only [NoneBefore, not_forall, not_not] at hnone
        obtain ⟨earlier, back, rfl, hearlier⟩ := hnone
        have hshorter : earlier.length < length := by
          rw [← hlength, List.length_append, List.length_cons]
          omega
        obtain ⟨short, rest, hsplit, hshort⟩ :=
          ih earlier.length hshorter hearlier (back ++ d :: after) rfl
        refine ⟨short, rest, ?_, hshort⟩
        rw [← hsplit, List.append_assoc, List.cons_append]

/-- If a body can be enclosed exactly where its end is free and no delimiter in it
is, then a literal ends after the first free delimiter. -/
theorem pastFirst_read {code : String} {rule : LiteralRule} {closes : List Char → Prop}
    (h : ∀ body, rule.Encloses body ↔ closes body ∧ NoneBefore rule.delimiter closes body)
    {pre text : List Char} (hcode : code.toList = pre ++ rule.delimiter :: text) :
    PastFirst rule.delimiter closes code pre text (rule.endOffset (utf8Length pre) text)
      (rule.read text).2 := by
  rcases rule.exists_enclosed_or_dangles text with ⟨body, after, rfl, hbody⟩ | hdangles
  · obtain ⟨hfree, hnone⟩ := (h body).mp hbody
    have hend : rule.endOffset (utf8Length pre) (body ++ rule.delimiter :: after) =
        utf8Length (pre ++ rule.delimiter :: (body ++ [rule.delimiter])) := by
      rw [endOffset, read_append hbody, utf8Length_append]
      simp [Segment.size, Segment.source]
    rw [hend, read_append hbody]
    exact .found rfl hfree fun other rest htext => length_le_of_noneBefore hnone htext
  · rw [endOffset_of_dangles hcode hdangles, read_of_dangles hdangles]
    refine .missing fun front after htext hfree => ?_
    obtain ⟨short, rest, hsplit, hshort⟩ := exists_noneBefore hfree after
    exact hdangles short rest ((h short).mpr hshort) (htext.trans hsplit)

/-- A literal closes by the parity of its escapes. With an escape other than the
delimiter, it ends just past the first delimiter in front of which the longest run
of escapes has even length; without an escape, just past the first delimiter; and
with the delimiter as its own escape, or where no delimiter closes it, at the end of
the code. -/
theorem endOffset_by_parity {code : String} {rule : LiteralRule} {pre text : List Char}
    (hcode : code.toList = pre ++ rule.delimiter :: text) :
    (∀ e, rule.escape = some e → e ≠ rule.delimiter →
      PastFirst rule.delimiter (fun front => endRun e front % 2 = 0) code pre text
        (rule.endOffset (utf8Length pre) text) (rule.read text).2) ∧
    (rule.escape = none →
      PastFirst rule.delimiter (fun _ => True) code pre text
        (rule.endOffset (utf8Length pre) text) (rule.read text).2) ∧
    (rule.escape = some rule.delimiter →
      rule.endOffset (utf8Length pre) text = code.utf8ByteSize ∧ (rule.read text).2 = []) := by
  refine ⟨?_, ?_, ?_⟩
  · intro e hescape hne
    have hcloses : rule.escape ≠ some rule.delimiter := fun h =>
      hne (Option.some.inj (hescape.symm.trans h))
    refine pastFirst_read (fun body => ?_) hcode
    exact ⟨fun h => (units_iff_evenRun hescape hne body).mp h.units,
      fun h => ⟨(units_iff_evenRun hescape hne body).mpr h, hcloses⟩⟩
  · intro hescape
    have hcloses : rule.escape ≠ some rule.delimiter := by
      rw [hescape]
      exact (Option.some_ne_none _).symm
    refine pastFirst_read (fun body => ?_) hcode
    exact ⟨fun h => ⟨trivial, (units_iff_noneBefore hescape body).mp h.units⟩,
      fun h => ⟨(units_iff_noneBefore hescape body).mpr h.2, hcloses⟩⟩
  · intro hescape
    have hdangles : rule.Dangles text := fun body after hbody => absurd hescape hbody.closes
    exact ⟨endOffset_of_dangles hcode hdangles, by rw [read_of_dangles hdangles]⟩

/-- A literal whose delimiter and escape take two bytes each. -/
def guillemets : LiteralRule :=
  ⟨'«', some 'é'⟩

/-- The first delimiter of the body stands after one escape, the second after two. -/
theorem endOffset_by_parity_guillemets :
    "ö«é«éé«b".toList = ['ö'] ++ '«' :: ['é', '«', 'é', 'é', '«', 'b'] ∧
      guillemets.endOffset (utf8Length ['ö']) ['é', '«', 'é', 'é', '«', 'b'] = 14 ∧
      PastFirst '«' (fun front => endRun 'é' front % 2 = 0) "ö«é«éé«b" ['ö']
        ['é', '«', 'é', 'é', '«', 'b'] 14 ['b'] := by
  have hcode : "ö«é«éé«b".toList =
      ['ö'] ++ guillemets.delimiter :: ['é', '«', 'é', 'é', '«', 'b'] := by
    decide +kernel
  have hend : guillemets.endOffset (utf8Length ['ö']) ['é', '«', 'é', 'é', '«', 'b'] = 14 := by
    decide +kernel
  have hrest : (guillemets.read ['é', '«', 'é', 'é', '«', 'b']).2 = ['b'] := by
    decide +kernel
  have hparity := (endOffset_by_parity hcode).1 'é' rfl (by decide)
  rw [hend, hrest] at hparity
  exact ⟨hcode, hend, hparity⟩

end LiteralRule

end Marginalia
