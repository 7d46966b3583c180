/-
Parsing what anybody may send.

The parser cuts a text where a length says, which need not be between two characters; it does not
look at the two bytes after the text; it reserves room for as many elements as a count says; and
it calls itself for every nested array.
-/
import GrumpyDB.Protocol.Response

namespace GrumpyDB

namespace Protocol

open Str List
open String (utf8Len)
open Proc hiding bind

variable {m : Machine} {stack : Nat} {log : List Nat} {a b s r : Str}
  {Q : Response × Nat → List Nat → Prop} {E : Halt → List Nat → Prop}

/-! ### The language -/

mutual

/-- A text that the parser takes for a complete reply. -/
inductive Element : Str → Prop where
  | simple {a : Str} (line : IsLine ('+' :: a)) : Element ('+' :: (a ++ CRLF))
  | error {a : Str} (line : IsLine ('-' :: a)) : Element ('-' :: (a ++ CRLF))
  | integer {a : Str} {n : Int64} (line : IsLine (':' :: a)) (value : parseI64 a = some n) :
      Element (':' :: (a ++ CRLF))
  | null {a : Str} {n : Int64} (line : IsLine ('$' :: a)) (value : parseI64 a = some n)
      (neg : n.toInt < 0) : Element ('$' :: (a ++ CRLF))
  | bulk {a data tail : Str} {n : Int64} (line : IsLine ('$' :: a)) (value : parseI64 a = some n)
      (size : n.toInt = utf8Len data) (two : utf8Len tail = 2) :
      Element ('$' :: (a ++ (CRLF ++ (data ++ tail))))
  | array {a xs : Str} {n : Nat} (line : IsLine ('*' :: a)) (value : parseU64 a = some n)
      (items : Elements n xs) : Element ('*' :: (a ++ (CRLF ++ xs)))

/-- A number of replies one after the other. -/
inductive Elements : Nat → Str → Prop where
  | nil : Elements 0 []
  | cons {n : Nat} {x xs : Str} (first : Element x) (rest : Elements n xs) :
      Elements (n + 1) (x ++ xs)

end

/-- In parsing a text the parser comes to another one, inside of a number of arrays. -/
inductive Visited : Str → Nat → Str → Prop where
  | here (s : Str) : Visited s 0 s
  | item {a done r r' : Str} {n k d : Nat} (line : IsLine ('*' :: a)) (value : parseU64 a = some n)
      (before : Elements k done) (more : k < n) (ne : r ≠ []) (visited : Visited r d r') :
      Visited ('*' :: (a ++ (CRLF ++ (done ++ r)))) (d + 1) r'

/-- What a text declares does no harm: a length that is there ends between two
characters, and so do the two bytes after it; a count is not above the limit. -/
structure Harmless (m : Machine) (limit : Nat) (r : Str) : Prop where
  bulk : ∀ a b n, r = '$' :: (a ++ (CRLF ++ b)) → IsLine ('$' :: a) → parseI64 a = some n →
    0 ≤ n.toInt → 1 + utf8Len a + 2 + n.toInt.toNat + 2 < 2 ^ 64 ∧
      (n.toInt.toNat + 2 ≤ utf8Len b →
        IsBoundary b n.toInt.toNat ∧ IsBoundary b (n.toInt.toNat + 2))
  array : ∀ a b n, r = '*' :: (a ++ (CRLF ++ b)) → IsLine ('*' :: a) → parseU64 a = some n →
    n ≤ limit ∧ n * m.elemSize ≤ ISIZE_MAX

/-! ### What the parser does -/

variable {n : Nat}

theorem isBoundary_append : IsBoundary (a ++ b) (utf8Len a + n) ↔ IsBoundary b n := by
  constructor
  · rintro ⟨x, y, hxy, hlen⟩
    rcases append_eq_append_iff.mp hxy with ⟨u, rfl, rfl⟩ | ⟨u, rfl, rfl⟩
    · rw [String.utf8Len_append] at hlen
      exact ⟨u, y, rfl, by omega⟩
    · rw [String.utf8Len_append] at hlen
      exact ⟨[], b, rfl, show 0 = n by omega⟩
  · rintro ⟨x, y, rfl, rfl⟩
    exact ⟨a ++ x, y, by simp, by simp⟩

theorem header_cases {c : Char} (hc : c ≠ '\r') (s : Str) :
    findCrlf (c :: s) = none ∨ ∃ a b, s = a ++ (CRLF ++ b) ∧ IsLine (c :: a) := by
  rcases hfind : findCrlf (c :: s) with _ | n
  · exact .inl rfl
  · obtain ⟨x, b, heq, hline, -⟩ := findCrlf_eq_some hfind
    rcases x with _ | ⟨d, a⟩
    · exact absurd (cons.inj heq).1 hc
    · obtain ⟨rfl, rfl⟩ := cons.inj heq
      exact .inr ⟨a, b, rfl, hline⟩

theorem post_parseAt_simple (h : IsLine ('+' :: a)) :
    Post (parseAt m (stack + 1) ('+' :: (a ++ (CRLF ++ b)))) Q E log ↔
      Q (.ok a, 1 + utf8Len a + 2) log :=
  (reads_header (by decide) h b).post_bind

theorem post_parseAt_error (h : IsLine ('-' :: a)) :
    Post (parseAt m (stack + 1) ('-' :: (a ++ (CRLF ++ b)))) Q E log ↔
      Q (.error (("ERR ".toList.isPrefixOf? a).getD a), 1 + utf8Len a + 2) log :=
  (reads_header (by decide) h b).post_bind

theorem post_parseAt_integer (h : IsLine (':' :: a)) :
    Post (parseAt m (stack + 1) (':' :: (a ++ (CRLF ++ b)))) Q E log ↔
      match parseI64 a with
      | some n => Q (.integer n, 1 + utf8Len a + 2) log
      | none => E (.err (.invalidInteger a)) log := by
  refine (reads_header (by decide) h b).post_bind.trans ?_
  rcases hn : parseI64 a with _ | n <;> simp [hn]

theorem post_parseAt_bulk {n : Int64} (h : IsLine ('$' :: a)) (hn : parseI64 a = some n) :
    Post (parseAt m (stack + 1) ('$' :: (a ++ (CRLF ++ b)))) Q E log ↔
      if n.toInt < 0 then Q (.bulk none, 1 + utf8Len a + 2) log
      else if 1 + utf8Len a + 2 + n.toInt.toNat + 2 < 2 ^ 64 then
        if utf8Len b < n.toInt.toNat + 2 then E (.err .incomplete) log
        else
          match cutAt b n.toInt.toNat with
          | some (data, _) =>
            Q (.bulk (some data), 1 + utf8Len a + 2 + n.toInt.toNat + 2) log
          | none => E (.panic .slice) log
      else E (.panic .addOverflow) log := by
  have hslice : sliceBetween ('$' :: (a ++ (CRLF ++ b))) (1 + utf8Len a + 2)
      (1 + utf8Len a + 2 + n.toInt.toNat) = (cutAt b n.toInt.toNat).map Prod.fst := by
    have hfront : '$' :: (a ++ (CRLF ++ b)) = '$' :: (a ++ CRLF) ++ b := by simp
    have hlen : utf8Len ('$' :: (a ++ CRLF)) = 1 + utf8Len a + 2 := utf8Len_line (by decide) a
    rw [sliceBetween, hfront, ← hlen, cutAt_append]
    simp only [Option.bind_eq_bind, Option.bind_some]
    rw [if_pos (Nat.le_add_right _ _), Nat.add_sub_cancel_left]
  refine (reads_header (by decide) h b).post_bind.trans ?_
  simp only [hn]
  split
  · exact Iff.rfl
  by_cases hadd : 1 + utf8Len a + 2 + n.toInt.toNat + 2 < 2 ^ 64
  · rw [if_pos hadd, (reads_addUsize (by omega)).post_bind, (reads_addUsize hadd).post_bind,
      utf8Len_header (by decide), hslice]
    by_cases hshort : utf8Len b < n.toInt.toNat + 2
    · rw [if_pos hshort, if_pos (by omega)]
      exact Iff.rfl
    · rw [if_neg hshort, if_neg (by omega)]
      rcases cutAt b n.toInt.toNat with _ | ⟨data, rest⟩ <;> exact Iff.rfl
  · rw [post_bind, addUsize]
    split
    · rw [post_pure, addUsize, if_neg hadd]
      exact Iff.rfl
    · exact Iff.rfl

theorem post_parseAt_array (h : IsLine ('*' :: a)) :
    Post (parseAt m (stack + 1) ('*' :: (a ++ (CRLF ++ b)))) Q E log ↔
      match parseU64 a with
      | some n =>
        if n * m.elemSize ≤ ISIZE_MAX then
          Post (parseItems (parseAt m stack) ('*' :: (a ++ (CRLF ++ b))) n (1 + utf8Len a + 2) [])
            (fun y log => Q (.array y.1, y.2) log) E (n :: log)
        else E (.panic .capacityOverflow) log
      | none => E (.err (.invalidBulkLength a)) log := by
  refine (reads_header (by decide) h b).post_bind.trans ?_
  rcases hn : parseU64 a with _ | n
  · simp [hn]
  · simp only [hn]
    rw [post_bind, withCapacity]
    split
    · rw [post_modify, post_bind]
      rfl
    · rfl

theorem post_parseAt_other {c : Char} (hc : c ∉ ['+', '-', ':', '$', '*']) :
    Post (parseAt m (stack + 1) (c :: s)) Q E log ↔
      E (.err (.invalidPrefix (firstByte c))) log := by
  simp only [mem_cons, not_mem_nil, or_false, not_or] at hc
  rw [parseAt, if_neg hc.1, if_neg hc.2.1, if_neg hc.2.2.1, if_neg hc.2.2.2.1, if_neg hc.2.2.2.2]
  exact Iff.rfl

theorem parseAt_rule (herr : ∀ e, E (.err e) log)
    (hline : ∀ x b v, r = x ++ b → Element x → Q (v, utf8Len x) log)
    (hbulk : ∀ a b n, r = '$' :: (a ++ (CRLF ++ b)) → IsLine ('$' :: a) → parseI64 a = some n →
      0 ≤ n.toInt → Post (parseAt m (stack + 1) r) Q E log)
    (harray : ∀ a b n, r = '*' :: (a ++ (CRLF ++ b)) → IsLine ('*' :: a) → parseU64 a = some n →
      Post (parseAt m (stack + 1) r) Q E log) :
    Post (parseAt m (stack + 1) r) Q E log := by
  rcases r with _ | ⟨c, s⟩
  · exact herr _
  by_cases hc : c ∈ ['+', '-', ':', '$', '*']
  swap
  · exact (post_parseAt_other hc).mpr (herr _)
  have hcr : c ≠ '\r' := by
    rintro rfl
    exact absurd hc (by decide)
  rcases header_cases hcr s with hfind | ⟨a, b, rfl, hl⟩
  · exact parseAt_of_no_line hc hfind (herr _)
  have hone {v : Response} (hx : Element (c :: (a ++ CRLF))) (hsize : c.utf8Size = 1) :
      Q (v, 1 + utf8Len a + 2) log := by
    rw [← utf8Len_line hsize]
    exact hline _ b v (by simp) hx
  simp only [mem_cons, not_mem_nil, or_false] at hc
  rcases hc with rfl | rfl | rfl | rfl | rfl
  · exact (post_parseAt_simple hl).mpr (hone (.simple hl) (by decide))
  · exact (post_parseAt_error hl).mpr (hone (.error hl) (by decide))
  · refine (post_parseAt_integer hl).mpr ?_
    rcases hn : parseI64 a with _ | n
    · exact herr _
    · exact hone (.integer hl hn) (by decide)
  · rcases hn : parseI64 a with _ | n
    · refine (reads_header (by decide) hl b).post_bind.mpr ?_
      simp only [hn]
      exact herr _
    · by_cases hneg : n.toInt < 0
      · refine (post_parseAt_bulk hl hn).mpr ?_
        rw [if_pos hneg]
        exact hone (.null hl hn hneg) (by decide)
      · exact hbulk a b n rfl hl hn (by omega)
  · rcases hn : parseU64 a with _ | n
    · refine (post_parseAt_array hl).mpr ?_
      rw [hn]
      exact herr _
    · exact harray a b n rfl hl hn

/-! ### Reservations are only added -/

variable {parse : Str → Parser (Response × Nat)}

theorem parseItems_log {input : Str}
    (hparse : ∀ r log, n ∈ log → Post (parse r) (fun _ log' => n ∈ log')
      (fun _ log' => n ∈ log') log)
    (count offset : Nat) (items : List Response) (log : List Nat) (h : n ∈ log) :
    Post (parseItems parse input count offset items) (fun _ log' => n ∈ log')
      (fun _ log' => n ∈ log') log := by
  induction count generalizing offset items log with
  | zero => exact h
  | succ count ih =>
    rw [parseItems]
    split
    · exact h
    · refine Post.bind ?_
      rcases sliceFrom input offset with _ | rest
      · exact h
      · refine post_pure.mpr (Post.bind ((hparse rest log h).mono ?_ fun _ _ he => he))
        exact fun x log' h' => ih _ _ log' h'

theorem parseAt_log (stack : Nat) (r : Str) (log : List Nat) (h : n ∈ log) :
    Post (parseAt m stack r) (fun _ log' => n ∈ log') (fun _ log' => n ∈ log') log := by
  induction stack generalizing r log with
  | zero => exact h
  | succ stack ih =>
    refine parseAt_rule (fun _ => h) (fun _ _ _ _ _ => h) ?_ ?_
    · rintro a b k rfl hl hk hpos
      refine (post_parseAt_bulk hl hk).mpr ?_
      rw [if_neg (by omega)]
      split
      · split
        · exact h
        · split <;> exact h
      · exact h
    · rintro a b k rfl hl hk
      refine (post_parseAt_array hl).mpr ?_
      rw [hk]
      dsimp only
      split
      · exact parseItems_log ih _ _ _ _ (mem_cons_of_mem _ h)
      · exact h

/-! ### A complete reply is read whole, or the parser panics -/

/-- A call that ends this way has panicked. -/
def IsPanic (e : Halt) : Prop := ∃ p, e = .panic p

theorem Element.ne_nil {x : Str} (h : Element x) : x ≠ [] := by
  cases h <;> simp

mutual

theorem Element.parseAt {m : Machine} {x : Str} : Element x → ∀ stack rest log,
    Post (Protocol.parseAt m stack (x ++ rest)) (fun y _ => y.2 = utf8Len x)
      (fun e _ => IsPanic e) log
  | _, 0, rest, log => ⟨.stackOverflow, rfl⟩
  | .simple line, stack + 1, rest, log => by
    rw [List.cons_append, List.append_assoc, post_parseAt_simple line, utf8Len_line (by decide)]
  | .error line, stack + 1, rest, log => by
    rw [List.cons_append, List.append_assoc, post_parseAt_error line, utf8Len_line (by decide)]
  | .integer line value, stack + 1, rest, log => by
    rw [List.cons_append, List.append_assoc, post_parseAt_integer line, value,
      utf8Len_line (by decide)]
  | .null line value neg, stack + 1, rest, log => by
    rw [List.cons_append, List.append_assoc, post_parseAt_bulk line value, if_pos neg,
      utf8Len_line (by decide)]
  | @Element.bulk a data tail n line value size two, stack + 1, rest, log => by
    have hnat : (utf8Len data : Int).toNat = utf8Len data := Int.toNat_natCast _
    rw [List.cons_append, List.append_assoc, List.append_assoc, List.append_assoc,
      post_parseAt_bulk line value, if_neg (by omega), size, hnat]
    split
    · rw [if_neg (by simp only [String.utf8Len_append]; omega), cutAt_append,
        utf8Len_header (by decide), String.utf8Len_append, two]
      exact Nat.add_assoc ..
    · exact ⟨.addOverflow, rfl⟩
  | @Element.array a xs n line value items, stack + 1, rest, log => by
    rw [List.cons_append, List.append_assoc, List.append_assoc, post_parseAt_array line, value]
    dsimp only
    split
    · have hitems := items.parseItems (m := m) stack ('*' :: (a ++ CRLF)) rest [] (n :: log)
      rw [utf8Len_line (by decide), List.cons_append, List.append_assoc] at hitems
      rw [utf8Len_header (by decide)]
      exact hitems
    · exact ⟨.capacityOverflow, rfl⟩

theorem Elements.parseItems {m : Machine} {n : Nat} {xs : Str} : Elements n xs →
    ∀ stack front rest acc log, Post (Protocol.parseItems (Protocol.parseAt m stack)
      (front ++ (xs ++ rest)) n (utf8Len front) acc)
      (fun y _ => y.2 = utf8Len front + utf8Len xs) (fun e _ => IsPanic e) log
  | .nil, stack, front, rest, acc, log => rfl
  | @Elements.cons n x xs first others, stack, front, rest, acc, log => by
    have hne : x ++ (xs ++ rest) ≠ [] := by
      simp [first.ne_nil]
    rw [append_assoc]
    refine (post_parseItems_succ hne).mpr ((first.parseAt stack (xs ++ rest) log).mono ?_
      fun _ _ he => he)
    rintro ⟨v, consumed⟩ log' rfl
    have hrest := others.parseItems (m := m) stack (front ++ x) rest (v :: acc) log'
    rw [append_assoc, String.utf8Len_append, Nat.add_assoc] at hrest
    rw [String.utf8Len_append]
    exact hrest

end

theorem Elements.skip {k : Nat} {xs : Str} (h : Elements k xs) {front rest : Str} {j : Nat}
    {acc : List Response} {Q : List Response × Nat → List Nat → Prop}
    (hE : ∀ e log, E e log → ¬ IsPanic e)
    (hpost : Post (Protocol.parseItems (Protocol.parseAt m stack) (front ++ (xs ++ rest)) (k + j)
      (utf8Len front) acc) Q E log) :
    ∃ acc' log', Post (Protocol.parseItems (Protocol.parseAt m stack) (front ++ (xs ++ rest)) j
      (utf8Len front + utf8Len xs) acc') Q E log' := by
  induction k generalizing xs front acc log with
  | zero =>
    cases h
    rw [Nat.zero_add] at hpost
    exact ⟨acc, log, hpost⟩
  | succ k ih =>
    cases h with
    | @cons _ x xs first others =>
      have hne : x ++ (xs ++ rest) ≠ [] := by
        simp [first.ne_nil]
      rw [show k + 1 + j = k + j + 1 by omega, append_assoc, post_parseItems_succ hne] at hpost
      rw [append_assoc]
      -- the next element is read, as the parser does not panic
      obtain ⟨⟨v, consumed⟩, -, hnext, rfl⟩ :=
        (hpost.and (first.parseAt stack (xs ++ rest) log)).mono (fun _ _ hq => hq)
          (fun e log he => hE e log he.1 he.2) |>.exists_ok
      have hfront : front ++ (x ++ (xs ++ rest)) = front ++ x ++ (xs ++ rest) := by simp
      rw [hfront, ← String.utf8Len_append] at hnext
      obtain ⟨acc', log', hrest⟩ := ih others hnext
      refine ⟨acc', log', ?_⟩
      rwa [← hfront, String.utf8Len_append, Nat.add_assoc, ← String.utf8Len_append] at hrest

/-! ### Safe runs -/

/-- A call returns a value or an error, all reservations are within the limit, and
what is consumed ends between two characters. -/
def SafeAt (m : Machine) (limit stack : Nat) (r : Str) (log : List Nat) : Prop :=
  Post (parseAt m stack r) (fun y log' => (∀ n ∈ log', n ≤ limit) ∧ IsBoundary r y.2)
    (fun e log' => (∀ n ∈ log', n ≤ limit) ∧ ¬ IsPanic e) log

variable {limit : Nat}

theorem SafeAt.harmless (h : SafeAt m limit (stack + 1) r log) : Harmless m limit r := by
  refine ⟨?_, ?_⟩
  · rintro a b n rfl hl hn hpos
    rw [SafeAt, post_parseAt_bulk hl hn, if_neg (by omega)] at h
    split at h
    · rename_i hadd
      refine ⟨hadd, fun hle => ?_⟩
      rw [if_neg (by omega)] at h
      rcases hcut : cutAt b n.toInt.toNat with _ | ⟨data, rest⟩
      · rw [hcut] at h
        exact absurd ⟨_, rfl⟩ h.2
      · rw [hcut] at h
        obtain ⟨hb, hdata⟩ := cutAt_eq_some.mp hcut
        refine ⟨⟨data, rest, hb, hdata⟩, ?_⟩
        have hfront : '$' :: (a ++ (CRLF ++ b)) = '$' :: (a ++ CRLF) ++ b := by simp
        have hbound := h.2
        rwa [hfront, ← utf8Len_line (c := '$') (by decide), Nat.add_assoc,
          isBoundary_append] at hbound
    · exact absurd ⟨_, rfl⟩ h.2
  · rintro a b n rfl hl hn
    rw [SafeAt, post_parseAt_array hl, hn] at h
    dsimp only at h
    split at h
    · rename_i hcap
      refine ⟨?_, hcap⟩
      have hkept := h.and (parseItems_log (fun r log => parseAt_log stack r log) _ _ _ _
        (mem_cons_self ..))
      exact Post.run (C := fun _ _ => n ≤ limit) (hkept.mono (fun _ _ hq => hq.1.1 n hq.2)
        fun _ _ he => he.1.1 n he.2)
    · exact absurd ⟨_, rfl⟩ h.2

theorem parseItems_consumed {input : Str}
    (hparse : ∀ r log, Post (parse r) (fun y _ => y.2 ≤ utf8Len r) (fun _ _ => True) log)
    (count offset : Nat) (hoffset : offset ≤ utf8Len input) (items : List Response)
    (log : List Nat) : Post (parseItems parse input count offset items)
      (fun y _ => y.2 ≤ utf8Len input) (fun _ _ => True) log := by
  induction count generalizing offset items log with
  | zero => exact hoffset
  | succ count ih =>
    rw [parseItems]
    split
    · trivial
    rcases hslice : sliceFrom input offset with _ | rest
    · exact Post.bind trivial
    obtain ⟨⟨front, rest'⟩, hcut, rfl⟩ := Option.map_eq_some_iff.mp hslice
    obtain ⟨rfl, rfl⟩ := cutAt_eq_some.mp hcut
    refine Post.bind (post_pure.mpr (Post.bind ((hparse rest' log).mono ?_ fun _ _ _ => trivial)))
    rintro ⟨v, consumed⟩ log' hle
    refine ih _ ?_ _ _
    rw [String.utf8Len_append]
    exact Nat.add_le_add_left hle _

theorem parseAt_consumed (stack : Nat) (r : Str) (log : List Nat) :
    Post (parseAt m stack r) (fun y _ => y.2 ≤ utf8Len r) (fun _ _ => True) log := by
  induction stack generalizing r log with
  | zero => trivial
  | succ stack ih =>
    refine parseAt_rule (fun _ => trivial) ?_ ?_ ?_
    · rintro x b v rfl -
      rw [String.utf8Len_append]
      exact Nat.le_add_right _ _
    · rintro a b n rfl hl hn hpos
      refine (post_parseAt_bulk hl hn).mpr ?_
      rw [if_neg (by omega), utf8Len_header (by decide)]
      split
      · split
        · trivial
        · split
          · omega
          · trivial
      · trivial
    · rintro a b n rfl hl hn
      refine (post_parseAt_array hl).mpr ?_
      rw [hn]
      dsimp only
      split
      · refine parseItems_consumed ih _ _ ?_ _ _
        rw [utf8Len_header (by decide)]
        exact Nat.le_add_right _ _
      · trivial

theorem isBoundary_of_parseItems {front t : Str} {count c : Nat} {items : List Response}
    (hc : c ≤ utf8Len t) (h : Post (parseItems (parseAt m stack) (front ++ t) count
      (utf8Len front + c) items) (fun y _ => IsBoundary (front ++ t) y.2)
      (fun e _ => ¬ IsPanic e) log) : IsBoundary t c := by
  rcases count with _ | count
  · exact isBoundary_append.mp h
  · rw [parseItems] at h
    split at h
    · rename_i hend
      rw [String.utf8Len_append] at hend
      exact ⟨t, [], by simp, by omega⟩
    · by_contra hnot
      have hslice : sliceFrom (front ++ t) (utf8Len front + c) = none := by
        rw [sliceFrom, cutAt_eq_none.mpr (mt isBoundary_append.mp hnot)]
        rfl
      rw [hslice] at h
      exact h ⟨_, rfl⟩

theorem SafeAt.visited {d : Nat} {r' : Str} (hv : Visited r d r') (h : SafeAt m limit stack r log) :
    d < stack ∧ Harmless m limit r' := by
  induction hv generalizing stack log with
  | here s =>
    rcases stack with _ | stack
    · exact absurd ⟨_, rfl⟩ h.2
    · exact ⟨Nat.succ_pos _, h.harmless⟩
  | @item a done r₁ r' n k d line value before more ne visited ih =>
    rcases stack with _ | stack
    · exact absurd ⟨_, rfl⟩ h.2
    rw [SafeAt, post_parseAt_array line, value] at h
    dsimp only at h
    split at h
    swap
    · exact absurd ⟨_, rfl⟩ h.2
    obtain ⟨j, rfl⟩ : ∃ j, n = k + (j + 1) := ⟨n - k - 1, by omega⟩
    -- the loop comes to the element
    have hfront : '*' :: (a ++ (CRLF ++ (done ++ r₁))) = '*' :: (a ++ CRLF) ++ (done ++ r₁) := by
      simp
    rw [← utf8Len_line (c := '*') (by decide) a, hfront] at h
    obtain ⟨acc, log', h⟩ := before.skip (fun _ _ he => he.2) h
    rw [← append_assoc, ← String.utf8Len_append, post_parseItems_succ ne] at h
    have hsafe : SafeAt m limit stack r₁ log' := by
      refine (h.and (parseAt_consumed stack r₁ log')).mono ?_ fun _ _ he => he.1
      rintro y log'' ⟨hrest, hle⟩
      refine ⟨fun n hn => ?_, isBoundary_of_parseItems hle (hrest.mono (fun _ _ hq => hq.2)
        fun _ _ he => he.2)⟩
      have hkept := hrest.and (parseItems_log (fun r log => parseAt_log stack r log) _ _ _ _ hn)
      exact Post.run (C := fun _ _ => n ≤ limit) (hkept.mono (fun _ _ hq => hq.1.1 n hq.2)
        fun _ _ he => he.1.1 n he.2)
    obtain ⟨hlt, hharmless⟩ := ih hsafe
    exact ⟨Nat.succ_lt_succ hlt, hharmless⟩

/-- The runs that are safe, and what they take from a text. -/
def Takes (m : Machine) (limit stack : Nat) (r : Str) (log : List Nat) : Prop :=
  Post (parseAt m stack r)
    (fun y log' => (∀ n ∈ log', n ≤ limit) ∧ ∃ x b, r = x ++ b ∧ Element x ∧ y.2 = utf8Len x)
    (fun e log' => (∀ n ∈ log', n ≤ limit) ∧ ¬ IsPanic e) log

/-- Parsing a text does not panic and does not reserve room for more elements than
the text has bytes, and what it consumes is a part of the text that ends between
two characters. -/
def ParseSafe (m : Machine) (s : Str) : Prop :=
  Post (Response.parse m s)
    (fun y log => (∀ n ∈ log, n ≤ utf8Len s) ∧ y.2 ≤ utf8Len s ∧ IsBoundary s y.2)
    (fun e log => (∀ n ∈ log, n ≤ utf8Len s) ∧ ¬ IsPanic e) []

theorem ParseSafe.visited {s r' : Str} {d : Nat} (h : ParseSafe m s) (hv : Visited s d r') :
    d < m.stack ∧ Harmless m (utf8Len s) r' := by
  have hsafe : SafeAt m (utf8Len s) m.stack s [] :=
    h.mono (fun _ _ hq => ⟨hq.1, hq.2.2⟩) fun _ _ he => he
  exact hsafe.visited hv

end Protocol

end GrumpyDB
