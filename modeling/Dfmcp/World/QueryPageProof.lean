import Dfmcp.Library.Codes
import Dfmcp.Library.Runs
import Dfmcp.World.QueryIdentityProof

/-!
# Pagination

Reading a query page by page, along the continuations, reads the ordered list of its matches.

* `decode_encode`, `decodeCursor_encodeCursor` — the two kinds of continuation are read back;
* `executeBoundedQuery_page`, `page_cases` — what one page of either evaluator is;
* `Reading.of_run` — what the pages read so far are, in any run;
* `pagination_exact` — nothing is lost or repeated, every step makes progress or states a budget,
  and a continuation resumes only the selection and snapshot that issued it.
-/

namespace Dfmcp

open Machine Runs Codes

/-! ## Numbers and digests as text -/

theorem strLen_ofList {l : List Char} (h : ∀ c ∈ l, c.utf8Size = 1) :
    strLen (String.ofList l) = l.length := by
  have hbytes : strLen (String.ofList l) = (l.flatMap String.utf8EncodeChar).length := by
    simp [strLen, utf8, List.utf8Encode]
  rw [hbytes]
  clear hbytes
  induction l with
  | nil => rfl
  | cons c l ih =>
      rw [List.flatMap_cons, List.length_append, String.length_utf8EncodeChar,
        h c List.mem_cons_self, ih fun c hc => h c (List.mem_cons_of_mem _ hc), List.length_cons,
        Nat.add_comm]

theorem isDigit_of_mem_digits {c : Char} {n : Nat} (h : c ∈ Nat.toDigits 10 n) :
    c.isDigit = true :=
  Nat.isDigit_of_mem_toDigits (by decide) (by decide) h

theorem utf8Size_of_isHexDigit {c : Char} (h : QueryPage.isHexDigit c = true) :
    c.utf8Size = 1 := by
  rw [Char.utf8Size_eq_one_iff, UInt32.le_iff_toNat_le]
  simp only [QueryPage.isHexDigit, Char.isDigit, Bool.or_eq_true, Bool.and_eq_true,
    decide_eq_true_eq, Char.le_def, UInt32.le_iff_toNat_le, ge_iff_le] at h
  simp only [UInt32.reduceToNat, Char.reduceVal] at h ⊢
  omega

theorem isHexDigit_of_isDigit {c : Char} (h : c.isDigit = true) :
    QueryPage.isHexDigit c = true := by
  rw [QueryPage.isHexDigit, h, Bool.true_or, Bool.true_or]

theorem separator_not_mem_digits (n : Nat) : ':' ∉ Nat.toDigits 10 n := by
  intro h
  exact absurd (isDigit_of_mem_digits h) (by decide)

theorem parseUnsigned_digits {w n : Nat} (h : n < 2 ^ w) :
    parseUnsigned w (Nat.toDigits 10 n) = some ⟨n, h⟩ := by
  have hvalue : (Nat.toDigits 10 n).foldl (fun acc c => acc * 10 + (c.toNat - '0'.toNat)) 0 =
      n := by
    have hfold := Nat.ofDigitChars_ten_toDigits (n := n)
    rw [Nat.ofDigitChars_eq_foldl] at hfold
    simpa only [Nat.mul_comm] using hfold
  unfold parseUnsigned
  split
  · rename_i rest hplus
    have hmem : '+' ∈ Nat.toDigits 10 n := by
      rw [hplus]
      exact List.mem_cons_self
    exact absurd (isDigit_of_mem_digits hmem) (by decide)
  · dsimp only
    rw [if_neg (not_or.2 ⟨Nat.toDigits_ne_nil,
      not_not.2 (List.all_eq_true.2 fun c => isDigit_of_mem_digits)⟩)]
    simp only [hvalue, h, dite_true]

/-- No number but zero is written with a leading zero. -/
theorem head_digits {n : Nat} (h : n ≠ 0) : (Nat.toDigits 10 n).head? ≠ some '0' := by
  induction n using Nat.strong_induction_on with
  | h n ih =>
      rw [Nat.toDigits_eq_if (by decide)]
      by_cases hlt : n < 10
      · rw [if_pos hlt, List.head?_cons]
        simpa using h
      · rw [if_neg hlt, List.head?_append_of_ne_nil _ Nat.toDigits_ne_nil]
        exact ih (n / 10) (by omega) (by omega)

def byteDigits (b : UInt8) : List Char :=
  [Nat.digitChar (b.toNat / 16), Nat.digitChar (b.toNat % 16)]

theorem toList_toHex (d : Digest32) : d.toHex.toList = d.bytes.flatMap byteDigits :=
  String.toList_ofList

theorem isHexDigit_digitChar {n : Nat} (h : n < 16) :
    QueryPage.isHexDigit (Nat.digitChar n) = true := by
  have hall : ∀ n < 16, QueryPage.isHexDigit (Nat.digitChar n) = true := by decide
  exact hall n h

theorem digitChar_injOn {m n : Nat} (hm : m < 16) (hn : n < 16)
    (h : Nat.digitChar m = Nat.digitChar n) : m = n := by
  have hall : ∀ m < 16, ∀ n < 16, Nat.digitChar m = Nat.digitChar n → m = n := by decide
  exact hall m hm n hn h

theorem byteDigits_injective : Function.Injective byteDigits := by
  intro a b h
  obtain ⟨hhigh, hrest⟩ := List.cons.inj h
  have hlow := (List.cons.inj hrest).1
  have ha := a.toNat_lt
  have hb := b.toNat_lt
  have hdiv := digitChar_injOn (by omega) (by omega) hhigh
  have hmod := digitChar_injOn (Nat.mod_lt _ (by decide)) (Nat.mod_lt _ (by decide)) hlow
  apply UInt8.toNat_inj.1
  omega

theorem toHex_injective : Function.Injective Digest32.toHex := by
  intro d e h
  have hlist := congrArg String.toList h
  rw [toList_toHex, toList_toHex] at hlist
  have hfree : PrefixFree byteDigits := .of_length byteDigits_injective fun _ _ => rfl
  apply Digest32.bytes_injective
  refine (hfree.flatMap_eq (d.length_eq.trans e.length_eq.symm) (x := []) (y := []) ?_).1
  rw [hlist]

theorem isHexDigit_of_mem_toHex {d : Digest32} {c : Char} (h : c ∈ d.toHex.toList) :
    QueryPage.isHexDigit c = true := by
  rw [toList_toHex] at h
  obtain ⟨b, -, hc⟩ := List.mem_flatMap.1 h
  have hb := b.toNat_lt
  rcases List.mem_cons.1 hc with rfl | hc
  · exact isHexDigit_digitChar (by omega)
  · rw [List.mem_singleton.1 hc]
    exact isHexDigit_digitChar (Nat.mod_lt _ (by decide))

theorem length_toHex (d : Digest32) : d.toHex.toList.length = 64 := by
  rw [toList_toHex, List.length_flatMap]
  simp [byteDigits, d.length_eq]

/-! ## Continuations as text -/

theorem toList_encode (t : ContinuationToken) :
    t.encode.toList = [':'].intercalate ["cont".toList, Nat.toDigits 10 t.fortressId.val,
      Nat.toDigits 10 t.cursor.epoch.val, Nat.toDigits 10 t.cursor.sequence.val,
      Nat.toDigits 10 t.offset.val] := by
  have hdigits : ∀ {w : Nat} (x : U w), (toString x).toList = Nat.toDigits 10 x.val :=
    fun x => Nat.toList_repr
  have hseparator : ":".toList = [':'] := by decide
  have htag : "cont:".toList = "cont".toList ++ [':'] := by decide
  simp only [ContinuationToken.encode, String.toList_append, hdigits, hseparator, htag,
    List.intercalate_cons_cons, List.intercalate_singleton, List.append_assoc]

theorem toList_encodeCursor (offset : U 32) (identity : Digest32) :
    (QueryPage.encodeCursor offset identity).toList = [':'].intercalate ["q1".toList,
      Nat.toDigits 10 offset.val, (QueryPage.cursorDigest offset identity).toHex.toList] := by
  have hdigits : (toString offset.val).toList = Nat.toDigits 10 offset.val := Nat.toList_repr
  have hseparator : ":".toList = [':'] := by decide
  simp only [QueryPage.encodeCursor, String.toList_append, hdigits, hseparator,
    List.intercalate_cons_cons, List.intercalate_singleton, List.append_assoc]

theorem strLen_of_oneByte {token : String} (h : ∀ c ∈ token.toList, c.utf8Size = 1) :
    strLen token = token.toList.length := by
  have hlen := strLen_ofList h
  rwa [String.ofList_toList] at hlen

/-- One-byte characters, joined by separators. -/
theorem oneByte_intercalate {parts : List (List Char)}
    (h : ∀ part ∈ parts, ∀ c ∈ part, c.utf8Size = 1) :
    ∀ c ∈ ([':'] : List Char).intercalate parts, c.utf8Size = 1 := by
  induction parts with
  | nil => simp
  | cons part rest ih =>
      intro c hc
      have hrest := ih fun part hpart => h part (List.mem_cons_of_mem _ hpart)
      cases rest with
      | nil =>
          rw [List.intercalate_singleton] at hc
          exact h part List.mem_cons_self c hc
      | cons next rest =>
          simp only [List.intercalate_cons_cons, List.mem_append, List.mem_singleton] at hc
          rcases hc with (hc | rfl) | hc
          · exact h part List.mem_cons_self c hc
          · decide
          · exact hrest c hc

theorem oneByte_of_all {s : List Char} (h : (s.all fun c => c.utf8Size = 1) = true) :
    ∀ c ∈ s, c.utf8Size = 1 := fun c hc => of_decide_eq_true (List.all_eq_true.1 h c hc)

theorem oneByte_digits (n : Nat) : ∀ c ∈ Nat.toDigits 10 n, c.utf8Size = 1 :=
  fun _ hc => utf8Size_of_isHexDigit (isHexDigit_of_isDigit (isDigit_of_mem_digits hc))

theorem length_digits_le {w n : Nat} (x : U w) (hn : 0 < n) (h : 2 ^ w ≤ 10 ^ n) :
    (Nat.toDigits 10 x.val).length ≤ n :=
  (Nat.length_toDigits_le_iff (by decide) hn).2 (x.isLt.trans_le h)

theorem strLen_encode_le (t : ContinuationToken) :
    strLen t.encode ≤ maxContinuationTokenBytes := by
  have hchars : ∀ c ∈ t.encode.toList, c.utf8Size = 1 := by
    rw [toList_encode]
    apply oneByte_intercalate
    intro part hpart
    simp only [List.mem_cons, List.not_mem_nil, or_false] at hpart
    rcases hpart with rfl | rfl | rfl | rfl | rfl
    · exact oneByte_of_all (by decide)
    all_goals exact oneByte_digits _
  have hfortress := length_digits_le t.fortressId (n := 20) (by decide) (by decide)
  have hepoch := length_digits_le t.cursor.epoch (n := 20) (by decide) (by decide)
  have hsequence := length_digits_le t.cursor.sequence (n := 20) (by decide) (by decide)
  have hoffset := length_digits_le t.offset (n := 10) (by decide) (by decide)
  have htag : "cont".toList.length = 4 := rfl
  rw [strLen_of_oneByte hchars, toList_encode]
  simp only [List.intercalate_cons_cons, List.intercalate_singleton, List.length_append, htag,
    List.length_singleton, maxContinuationTokenBytes]
  omega

theorem strLen_encodeCursor_le (offset : U 32) (identity : Digest32) :
    strLen (QueryPage.encodeCursor offset identity) ≤ maxContinuationTokenBytes := by
  have hchars : ∀ c ∈ (QueryPage.encodeCursor offset identity).toList, c.utf8Size = 1 := by
    rw [toList_encodeCursor]
    apply oneByte_intercalate
    intro part hpart
    simp only [List.mem_cons, List.not_mem_nil, or_false] at hpart
    rcases hpart with rfl | rfl | rfl
    · exact oneByte_of_all (by decide)
    · exact oneByte_digits _
    · exact fun c hc => utf8Size_of_isHexDigit (isHexDigit_of_mem_toHex hc)
  have hoffset := length_digits_le offset (n := 10) (by decide) (by decide)
  have htag : "q1".toList.length = 2 := rfl
  rw [strLen_of_oneByte hchars, toList_encodeCursor]
  simp only [List.intercalate_cons_cons, List.intercalate_singleton, List.length_append, htag,
    List.length_singleton, length_toHex, maxContinuationTokenBytes]
  omega

/-- **A continuation of the reference evaluator is read back.** -/
theorem decode_encode {t : ContinuationToken} (h : t.fortressId ≠ 0) :
    ContinuationToken.decode t.encode = .ok t := by
  have hsplit : t.encode.toList.splitOn ':' = ["cont".toList, Nat.toDigits 10 t.fortressId.val,
      Nat.toDigits 10 t.cursor.epoch.val, Nat.toDigits 10 t.cursor.sequence.val,
      Nat.toDigits 10 t.offset.val] := by
    rw [toList_encode, List.splitOn_intercalate _ _ (List.cons_ne_nil _ _)]
    intro part hpart
    simp only [List.mem_cons, List.not_mem_nil, or_false] at hpart
    rcases hpart with rfl | rfl | rfl | rfl | rfl
    · decide
    all_goals exact separator_not_mem_digits _
  unfold ContinuationToken.decode
  rw [if_neg (not_lt.2 (strLen_encode_le t)), hsplit]
  simp only [ne_eq, not_true_eq_false, if_false, parseUnsigned_digits (Fin.isLt _), Fin.eta, h]

/-- **A cursor is read back where its digest is the expected one**, and refused elsewhere. -/
theorem decodeCursor_encodeCursor {offset : U 32} {identity : Digest32} (h : offset ≠ 0)
    (expected : Digest32) :
    QueryPage.decodeCursor (QueryPage.encodeCursor offset identity) expected =
      if QueryPage.cursorDigest offset identity = QueryPage.cursorDigest offset expected then
        .ok offset
      else .error (.new .staleAnchor
        "query continuation belongs to a different query or snapshot, or was modified") := by
  have hsplit : (QueryPage.encodeCursor offset identity).toList.splitOn ':' = ["q1".toList,
      Nat.toDigits 10 offset.val, (QueryPage.cursorDigest offset identity).toHex.toList] := by
    rw [toList_encodeCursor, List.splitOn_intercalate _ _ (List.cons_ne_nil _ _)]
    intro part hpart
    simp only [List.mem_cons, List.not_mem_nil, or_false] at hpart
    rcases hpart with rfl | rfl | rfl
    · decide
    · exact separator_not_mem_digits _
    · intro hmem
      exact absurd (isHexDigit_of_mem_toHex hmem) (by decide)
  have hlegacy : ∀ rest : List Char, ("cont:".toList.isPrefixOf ('q' :: rest) ||
      "offset:".toList.isPrefixOf ('q' :: rest)) = false := fun _ => rfl
  have hhead : ∃ rest, (QueryPage.encodeCursor offset identity).toList = 'q' :: rest := by
    rw [toList_encodeCursor]
    exact ⟨_, rfl⟩
  obtain ⟨rest, hrest⟩ := hhead
  have hdigits : (Nat.toDigits 10 offset.val).all Char.isDigit = true :=
    List.all_eq_true.2 fun c => isDigit_of_mem_digits
  have hhex : (QueryPage.cursorDigest offset identity).toHex.toList.all QueryPage.isHexDigit =
      true := List.all_eq_true.2 fun c => isHexDigit_of_mem_toHex
  have hzero : offset.val ≠ 0 := fun hzero => h (Fin.ext hzero)
  unfold QueryPage.decodeCursor
  rw [hsplit, hrest, hlegacy, if_neg (by decide)]
  simp only [ne_eq, not_true_eq_false, Nat.toDigits_ne_nil, hdigits, length_toHex, hhex, or_false,
    if_false, parseUnsigned_digits (Fin.isLt _), Fin.eta, h, head_digits hzero,
    String.toList_inj, toHex_injective.eq_iff]
  by_cases hsame : QueryPage.cursorDigest offset identity = QueryPage.cursorDigest offset expected
  · rw [if_neg (not_not.2 hsame), if_pos hsame]
  · rw [if_pos hsame, if_neg hsame]

/-! ## A page of the reference evaluator -/

/-- The outcome is as described, or a budget is exceeded. -/
def WithinBudget {α : Type} (P : α → Prop) : Result α → Prop
  | .ok a => P a
  | .error e => e.code = .budgetExceeded

section WithinBudget

variable {α β : Type} {P : α → Prop} {Q : β → Prop}

theorem WithinBudget.bind {x : Result α} {f : α → Result β} (hx : WithinBudget P x)
    (hf : ∀ a, P a → WithinBudget Q (f a)) : WithinBudget Q (x >>= f) := by
  cases x with
  | error e => exact hx
  | ok a => exact hf a hx

theorem WithinBudget.guard {c : Prop} [Decidable c] {e : DfmcpError} {f : α → Result β}
    {y : Result β} (he : c → e.code = .budgetExceeded) (hy : ¬ c → WithinBudget Q y) :
    WithinBudget Q (if c then ((throw e : Result α) >>= f) else y) := by
  by_cases hc : c
  · rw [if_pos hc]
    exact he hc
  · rw [if_neg hc]
    exact hy hc

theorem WithinBudget.check {c : Prop} [Decidable c] {e : DfmcpError} {a : α}
    (he : e.code = .budgetExceeded) (ha : P a) :
    WithinBudget P (if c then .error e else .ok a) := by
  by_cases hc : c
  · rw [if_pos hc]
    exact he
  · rw [if_neg hc]
    exact ha

end WithinBudget

/-- The rows of a page are the next ones, and the page takes none only when there are none. -/
theorem selectRows_takes {limit : Nat} (hlimit : 0 < limit) (byteLimit : Option Nat)
    (rows selected : List EntityRecord) (currentBytes : Nat) :
    WithinBudget (fun out => ∃ taken left, rows = taken ++ left ∧ out = (selected ++ taken,
      !left.isEmpty) ∧ (selected ++ taken = [] → left = []))
      (selectRows limit byteLimit selected currentBytes rows) := by
  induction rows generalizing selected currentBytes with
  | nil => exact ⟨[], [], rfl, by rw [List.append_nil]; rfl, fun _ => rfl⟩
  | cons entity rest ih =>
      have hcut : selected ≠ [] → WithinBudget (fun out => ∃ taken left,
          entity :: rest = taken ++ left ∧ out = (selected ++ taken, !left.isEmpty) ∧
          (selected ++ taken = [] → left = [])) (.ok (selected, true)) := by
        intro hne
        refine ⟨[], entity :: rest, rfl, by rw [List.append_nil]; rfl, fun hnil => ?_⟩
        rw [List.append_nil] at hnil
        exact absurd hnil hne
      rw [selectRows]
      by_cases hfull : selected.length ≥ limit
      · rw [if_pos hfull]
        exact hcut (List.length_pos_iff.1 (hlimit.trans_le hfull))
      rw [if_neg hfull]
      dsimp only
      by_cases hoverflow : currentBytes + entity.encode.length ≥ 2 ^ 64
      · rw [if_pos hoverflow]
        exact rfl
      rw [if_neg hoverflow]
      by_cases hbytes : (byteLimit.any fun bound =>
          decide (currentBytes + entity.encode.length > bound)) = true
      · rw [if_pos hbytes]
        by_cases hnone : selected = []
        · rw [if_pos hnone]
          exact rfl
        · rw [if_neg hnone]
          exact hcut hnone
      · rw [if_neg hbytes]
        have htail := ih (selected ++ [entity]) (currentBytes + entity.encode.length)
        revert htail
        cases selectRows limit byteLimit (selected ++ [entity])
            (currentBytes + entity.encode.length) rest with
        | error e => exact id
        | ok out =>
            intro htail
            obtain ⟨taken, left, rfl, rfl, -⟩ := htail
            refine ⟨entity :: taken, left, rfl, by rw [List.append_assoc]; rfl, fun hnil => ?_⟩
            exact absurd hnil (by simp)

namespace WorldQuery

/-- The rows a query has to return. -/
def answer (query : WorldQuery) (s : WorldSnapshot) : List EntityRecord :=
  query.order.sort (query.matches s)

theorem perm_answer (query : WorldQuery) (s : WorldSnapshot) :
    (query.answer s).Perm (query.matches s) := by
  unfold answer QueryOrder.sort
  cases query.order <;> exact List.perm_insertionSort _ _

theorem length_matches_le (query : WorldQuery) (s : WorldSnapshot) :
    (query.matches s).length ≤ s.graph.entities.size := by
  have hvalues : s.graph.entities.values.length = s.graph.entities.size := by
    simp [OMap.values, OMap.size]
  rw [← hvalues]
  exact (List.length_filter_le _ _).trans (List.length_filter_le _ _)

theorem limit_pos {query : WorldQuery} {hardLimit : U 32}
    (h : query.validate hardLimit = .ok ()) : 0 < query.limit.val := by
  unfold WorldQuery.validate at h
  have hlimit := (guard_ok_iff.1 h).1
  exact Nat.pos_of_ne_zero fun hzero => hlimit (.inl (Fin.ext hzero))

theorem checkWork_within (query : WorldQuery) (entities : Nat) :
    WithinBudget (fun _ => True) (query.checkWork entities) := by
  unfold checkWork
  cases query.predicate with
  | none => exact trivial
  | some predicate => exact .check rfl trivial

end WorldQuery

/-- A page of rows at an offset, and the offset of the page behind it. -/
def IsPage (rows : List EntityRecord) (offset : Nat) (next : U 32 → String)
    (result : QueryResult) : Prop :=
  ∃ left, rows.drop offset = result.entities ++ left ∧ (result.entities = [] → left = []) ∧
    (left = [] ∧ result.continuation = none ∨
      left ≠ [] ∧ ∃ following : U 32, following.val = offset + result.entities.length ∧
        result.continuation = some (next following))

/-- **A page of the reference evaluator.** -/
theorem executeBoundedQuery_page {s : WorldSnapshot} {query : WorldQuery} {hardLimit : U 32}
    {offset : Nat} (byteLimit : Option Nat) (hvalid : query.validate hardLimit = .ok ())
    (hoffset : query.offset s = .ok offset)
    (hinside : offset < (query.answer s).length ∨ query.continuation = none ∧ offset = 0) :
    WithinBudget (IsPage (query.answer s) offset fun following =>
        (⟨s.fortressId, s.cursor, following⟩ : ContinuationToken).encode)
      (executeBoundedQuery s query hardLimit byteLimit) := by
  unfold executeBoundedQuery
  refine .bind (P := fun _ => True) (by rw [hvalid]; trivial) fun _ _ => ?_
  refine .guard (fun _ => rfl) fun hsize => ?_
  refine (query.checkWork_within _).bind fun _ _ => ?_
  refine .bind (P := (offset = ·)) (by rw [hoffset]; rfl) ?_
  intro _ hsame
  subst hsame
  have hcount : (query.matches s).length < 2 ^ 64 :=
    (query.length_matches_le s).trans_lt ((not_lt.1 hsize).trans_lt (by decide))
  have hmatched : (U.tryFrom (query.matches s).length : Option (U 64)) = some ⟨_, hcount⟩ :=
    dif_pos hcount
  dsimp only
  rw [hmatched]
  refine .bind (P := fun _ => True) trivial fun matched _ => ?_
  refine .guard (fun hbeyond => ?_) fun _ => ?_
  · rcases hinside with hinside | ⟨hfirst, -⟩
    · exact absurd hbeyond.2 (not_le.2 hinside)
    · rw [hfirst] at hbeyond
      exact absurd hbeyond.1 (by decide)
  refine (selectRows_takes (query.limit_pos hvalid) byteLimit _ _ _).bind ?_
  intro out hout
  obtain ⟨taken, left, hsplit, rfl, hprogress⟩ := hout
  refine .guard (fun _ => rfl) fun _ => ?_
  dsimp only
  rw [List.nil_append] at hprogress ⊢
  by_cases hleft : left = []
  · -- the last page: no row behind it
    have hlength := congrArg List.length hsplit
    rw [hleft, List.append_nil, List.length_drop] at hlength
    rw [if_neg (not_or.2 ⟨by rw [hleft]; decide, by omega⟩)]
    exact ⟨left, hsplit, hprogress, .inl ⟨hleft, rfl⟩⟩
  · have hcut : (!left.isEmpty) = true := by
      rw [Bool.not_eq_true', List.isEmpty_eq_false_iff]
      exact hleft
    rw [if_pos (.inl hcut)]
    by_cases hnext : offset + taken.length < 2 ^ 32
    · have hfrom : (U.tryFrom (offset + taken.length) : Option (U 32)) = some ⟨_, hnext⟩ :=
        dif_pos hnext
      rw [hfrom]
      exact ⟨left, hsplit, hprogress, .inr ⟨hleft, _, rfl, rfl⟩⟩
    · have hfrom : (U.tryFrom (offset + taken.length) : Option (U 32)) = none := dif_neg hnext
      rw [hfrom]
      exact rfl

/-! ## A page -/

namespace QueryPage

theorem checkIdentityLength_within (bytes : Bytes) :
    WithinBudget (fun _ => True) (checkIdentityLength bytes) := .check rfl trivial

theorem encodeKindName_within (bytes : Bytes) (name : String) :
    WithinBudget (fun _ => True) (encodeKindName bytes name) := .check rfl trivial

theorem encodePredicates_within {children : List Predicate}
    (h : ∀ p ∈ children, ∀ bytes, WithinBudget (fun _ => True) (encodePredicate bytes p))
    (bytes : Bytes) : WithinBudget (fun _ => True) (encodePredicates bytes children) := by
  induction children generalizing bytes with
  | nil => exact trivial
  | cons child rest ih =>
      rw [encodePredicates]
      exact (h child List.mem_cons_self bytes).bind fun next _ =>
        ih (fun p hp => h p (List.mem_cons_of_mem _ hp)) next

theorem encodePredicate_within (p : Predicate) :
    ∀ bytes, WithinBudget (fun _ => True) (encodePredicate bytes p) := by
  induction p using Predicate.induct with
  | hall children ih =>
      intro bytes
      rw [encodePredicate]
      exact (encodePredicates_within ih _).bind fun _ _ => checkIdentityLength_within _
  | hany children ih =>
      intro bytes
      rw [encodePredicate]
      exact (encodePredicates_within ih _).bind fun _ _ => checkIdentityLength_within _
  | hnot child ih =>
      intro bytes
      rw [encodePredicate]
      exact (ih _).bind fun _ _ => checkIdentityLength_within _
  | hleaf p hp =>
      intro bytes
      cases p with
      | all children => exact hp.elim
      | any children => exact hp.elim
      | not child => exact hp.elim
      | entityKind entityId kind =>
          exact (encodeKindName_within _ _).bind fun _ _ => checkIdentityLength_within _
      | edgeExists edgeId kind =>
          cases kind with
          | none => exact checkIdentityLength_within _
          | some kind =>
              exact (encodeKindName_within _ _).bind fun _ _ => checkIdentityLength_within _
      | entityQuantity kind filterField filterValue quantityField op value =>
          exact (encodeKindName_within _ _).bind fun _ _ => checkIdentityLength_within _
      | entityQuantityIncrease kind filterField filterValue quantityField baseline increase anchor
          digest generation counters =>
          exact (encodeKindName_within _ _).bind fun _ _ => checkIdentityLength_within _
      | _ => exact checkIdentityLength_within _

theorem encodeKinds_within (kinds : List EntityKind) (bytes : Bytes) :
    WithinBudget (fun _ => True) (encodeKinds bytes kinds) := by
  induction kinds generalizing bytes with
  | nil => exact trivial
  | cons kind rest ih =>
      rw [encodeKinds]
      exact (encodeKindName_within _ _).bind fun next _ => ih next

theorem identityBytes_within (s : WorldSnapshot) (query : WorldQuery) :
    WithinBudget (fun bytes => identityBytes s query = .ok bytes) (identityBytes s query) := by
  have hwithin : WithinBudget (fun _ => True) (identityBytes s query) :=
    (encodeKinds_within _ _).bind fun bytes _ => encodePredicate_within _ _
  revert hwithin
  cases identityBytes s query with
  | error e => exact id
  | ok bytes => exact fun _ => rfl

theorem checkWork_within (s : WorldSnapshot) (query : WorldQuery) :
    WithinBudget (fun _ => True) (checkWork s query) := .check rfl trivial

end QueryPage

/-- The query as a page asks it. -/
def WorldQuery.page (query : WorldQuery) (limit : U 32) (continuation : Option String) :
    WorldQuery :=
  { query with limit, continuation }

theorem WorldQuery.validate_page {query : WorldQuery} {limit hardLimit : U 32} {token : String}
    (hvalid : (query.page limit none).validate hardLimit = .ok ())
    (hlength : strLen token ≤ maxContinuationTokenBytes) :
    (query.page limit (some token)).validate hardLimit = .ok () := by
  unfold WorldQuery.validate at hvalid ⊢
  obtain ⟨hlimit, hvalid⟩ := guard_ok_iff.1 hvalid
  obtain ⟨hkinds, hvalid⟩ := guard_ok_iff.1 hvalid
  obtain ⟨-, hpredicate⟩ := guard_ok_iff.1 hvalid
  refine guard_ok_iff.2 ⟨hlimit, guard_ok_iff.2 ⟨hkinds, guard_ok_iff.2 ⟨?_, hpredicate⟩⟩⟩
  simpa [WorldQuery.page] using hlength

namespace QueryPage

/-- A continuation that a page of the query issued, and its offset. -/
def Issued (s : WorldSnapshot) (query : WorldQuery) (offset : Nat) : Option String → Prop
  | none => offset = 0
  | some token => ∃ bytes, identityBytes s query = .ok bytes ∧ ∃ following : U 32,
      following.val = offset ∧ following ≠ 0 ∧ offset < (query.answer s).length ∧
        token = encodeCursor following (.ofBytes bytes)

/-- An empty page is the only page of an empty answer. -/
theorem IsPage.answer_of_empty {s : WorldSnapshot} {query : WorldQuery} {offset : Nat}
    {continuation : Option String} {next : U 32 → String} {result : QueryResult}
    (h : IsPage (query.answer s) offset next result)
    (hissued : Issued s query offset continuation) (hempty : result.entities = []) :
    query.answer s = [] := by
  obtain ⟨left, hsplit, hprogress, -⟩ := h
  rw [hempty, hprogress hempty, List.append_nil] at hsplit
  cases continuation with
  | none =>
      obtain rfl : offset = 0 := hissued
      exact hsplit
  | some token =>
      obtain ⟨-, -, -, -, -, hinside, -⟩ := hissued
      exact absurd (List.drop_eq_nil_iff.1 hsplit) (not_le.2 hinside)

/-- The reference evaluator, asked from the same offset. -/
theorem reference_page {s : WorldSnapshot} {query : WorldQuery} {limit hardLimit : U 32}
    {continuation : Option String} {offset : Nat} {bytes : Bytes} (byteLimit : Option Nat)
    (hfortress : s.fortressId ≠ 0)
    (hvalid : (query.page limit none).validate hardLimit = .ok ())
    (hissued : Issued s query offset continuation) (hbytes : identityBytes s query = .ok bytes) :
    ∃ start : U 32, pageOffset (query.page limit continuation) (.ofBytes bytes) = .ok start ∧
      WithinBudget (IsPage (query.answer s) offset fun following =>
          (⟨s.fortressId, s.cursor, following⟩ : ContinuationToken).encode)
        (Dfmcp.executeBoundedQuery s (query.page limit (continuation.map fun _ =>
          (⟨s.fortressId, s.cursor, start⟩ : ContinuationToken).encode)) hardLimit byteLimit) := by
  cases continuation with
  | none =>
      obtain rfl : offset = 0 := hissued
      exact ⟨0, rfl, executeBoundedQuery_page byteLimit hvalid rfl (.inr ⟨rfl, rfl⟩)⟩
  | some token =>
      obtain ⟨issuer, hissuer, following, rfl, hne, hinside, rfl⟩ := hissued
      obtain rfl : issuer = bytes := Except.ok.inj (hissuer.symm.trans hbytes)
      refine ⟨following, ?_, executeBoundedQuery_page byteLimit
        (WorldQuery.validate_page hvalid (strLen_encode_le _)) ?_ (.inl hinside)⟩
      · exact (decodeCursor_encodeCursor hne _).trans (if_pos rfl)
      · have hread := decode_encode (t := ⟨s.fortressId, s.cursor, following⟩) hfortress
        unfold WorldQuery.offset
        dsimp only [WorldQuery.page, Option.map_some]
        rw [hread]
        exact if_neg (not_or.2 ⟨not_not.2 rfl, not_not.2 rfl⟩)

/-- **A page**, from a continuation that an earlier page issued. -/
theorem page_cases {s : WorldSnapshot} {query : WorldQuery} {limit hardLimit : U 32}
    {continuation : Option String} {offset : Nat} (byteLimit : Option Nat)
    (hhash : s.hashIsValid = true) (hfortress : s.fortressId ≠ 0)
    (hvalid : (query.page limit none).validate hardLimit = .ok ())
    (hissued : Issued s query offset continuation) :
    WithinBudget (fun result => ∃ bytes, identityBytes s query = .ok bytes ∧
        IsPage (query.answer s) offset (fun following => encodeCursor following (.ofBytes bytes))
          result)
      (executeBoundedQuery s (query.page limit continuation) hardLimit byteLimit) := by
  have hpage : (query.page limit continuation).validate hardLimit = .ok () := by
    cases continuation with
    | none => exact hvalid
    | some token =>
        obtain ⟨bytes, -, following, -, -, -, rfl⟩ := hissued
        exact WorldQuery.validate_page hvalid (strLen_encodeCursor_le _ _)
  unfold executeBoundedQuery
  refine .bind (P := fun _ => True) (by rw [hpage]; trivial) fun _ _ => ?_
  refine (checkWork_within _ _).bind fun _ _ => ?_
  refine .guard (fun hinvalid => absurd hhash hinvalid) fun _ => ?_
  refine .bind (P := fun identity => ∃ bytes, identityBytes s query = .ok bytes ∧
    identity = Digest32.ofBytes bytes) ?_ ?_
  · exact (identityBytes_within s query).bind fun bytes hbytes => ⟨bytes, hbytes, rfl⟩
  intro identity hidentity
  obtain ⟨bytes, hbytes, rfl⟩ := hidentity
  obtain ⟨start, hstart, hreference⟩ := reference_page byteLimit hfortress hvalid hissued hbytes
  refine .bind (P := (start = ·)) (by rw [hstart]; rfl) ?_
  intro _ hsame
  subst hsame
  refine hreference.bind fun result hresult => ?_
  obtain ⟨left, hsplit, hprogress, ⟨hleft, hnone⟩ | ⟨hleft, following, hfollowing, hsome⟩⟩ := hresult
  · rw [hnone]
    exact ⟨bytes, hbytes, left, hsplit, hprogress, .inl ⟨hleft, hnone⟩⟩
  · have hread := decode_encode (t := ⟨s.fortressId, s.cursor, following⟩) hfortress
    rw [hsome]
    dsimp only
    rw [hread]
    exact ⟨bytes, hbytes, left, hsplit, hprogress, .inr ⟨hleft, following, hfollowing, rfl⟩⟩

/-! ## Reading page by page -/

/-- What a reader asks of one page. -/
structure PageChoice where
  limit : U 32
  hardLimit : U 32
  byteLimit : Option Nat

/-- The query is valid with the limits of the page. -/
def PageChoice.Allows (choice : PageChoice) (query : WorldQuery) : Prop :=
  (query.page choice.limit none).validate choice.hardLimit = .ok ()

/-- The page a reader asks for. -/
def PageChoice.ask (choice : PageChoice) (s : WorldSnapshot) (query : WorldQuery)
    (continuation : Option String) : Result QueryResult :=
  executeBoundedQuery s (query.page choice.limit continuation) choice.hardLimit choice.byteLimit

/-- Where a reader stands: before a page, or behind the last one. -/
inductive Position where
  | page (continuation : Option String)
  | finished
deriving DecidableEq

/-- The pages a reader has been given. -/
structure Reading where
  pages : List (List EntityRecord)
  position : Position

namespace Reading

def start : Reading := ⟨[], .page none⟩

def rows (r : Reading) : List EntityRecord := r.pages.flatten

/-- The reader keeps the page and follows its continuation, if there is one. -/
def take (r : Reading) (result : QueryResult) : Reading :=
  ⟨r.pages ++ [result.entities], result.continuation.elim .finished fun token => .page (some token)⟩

/-- One request. A reader that is refused a page stays where it was. -/
def Step (s : WorldSnapshot) (query : WorldQuery) (r : Reading) (choice : PageChoice)
    (after : Reading) : Prop :=
  ∃ continuation, r.position = .page continuation ∧
    match choice.ask s query continuation with
    | .ok result => after = r.take result
    | .error _ => after = r

/-- What a reader has read, whatever it asked for. -/
structure Sound (s : WorldSnapshot) (query : WorldQuery) (r : Reading) : Prop where
  inOrder : r.rows <+: query.answer s
  issued : ∀ continuation, r.position = .page continuation →
    Issued s query r.rows.length continuation ∧ r.pages.length ≤ r.rows.length
  complete : r.position = .finished →
    r.rows = query.answer s ∧ r.pages.length ≤ max 1 (query.answer s).length

variable {s : WorldSnapshot} {query : WorldQuery}

theorem sound_start : Sound s query start :=
  ⟨List.nil_prefix, fun continuation hposition => by
    obtain rfl : none = continuation := Position.page.inj hposition
    exact ⟨rfl, le_rfl⟩, fun hposition => nomatch hposition⟩

theorem rows_take (r : Reading) (result : QueryResult) :
    (r.take result).rows = r.rows ++ result.entities := by
  simp [rows, take]

/-- A page is what comes next. -/
theorem Sound.take {r : Reading} {continuation : Option String} {result : QueryResult}
    {bytes : Bytes} (h : Sound s query r) (hposition : r.position = .page continuation)
    (hbytes : identityBytes s query = .ok bytes)
    (hpage : IsPage (query.answer s) r.rows.length
      (fun following => encodeCursor following (.ofBytes bytes)) result) :
    Sound s query (r.take result) := by
  obtain ⟨left, hsplit, hprogress, hend⟩ := id hpage
  obtain ⟨hissued, hcount⟩ := h.issued continuation hposition
  obtain ⟨behind, hbehind⟩ := h.inOrder
  rw [← hbehind, List.drop_left] at hsplit
  have hanswer : query.answer s = r.rows ++ result.entities ++ left := by
    rw [← hbehind, hsplit, List.append_assoc]
  have hpages : (r.take result).pages.length = r.pages.length + 1 := by
    simp [Reading.take]
  rcases hend with ⟨rfl, hlast⟩ | ⟨hleft, following, hfollowing, hnext⟩
  · -- the last page
    have hfinished : (r.take result).position = .finished := by
      rw [Reading.take, hlast]
      rfl
    rw [List.append_nil] at hanswer
    refine ⟨by rw [rows_take, hanswer], fun _ hnot => ?_, fun _ => ⟨by rw [rows_take, hanswer], ?_⟩⟩
    · rw [hfinished] at hnot
      cases hnot
    · rw [hpages, hanswer, List.length_append]
      by_cases hempty : result.entities = []
      · -- no row at all: the first page was asked for
        have hnone := IsPage.answer_of_empty hpage hissued hempty
        rw [hanswer, List.append_eq_nil_iff] at hnone
        rw [hnone.1, List.length_nil] at hcount ⊢
        omega
      · have hpos := List.length_pos_iff.2 hempty
        omega
  · have hsome : (r.take result).position =
        .page (some (encodeCursor following (.ofBytes bytes))) := by
      rw [Reading.take, hnext]
      rfl
    have hpos : 0 < result.entities.length :=
      List.length_pos_iff.2 fun hempty => hleft (hprogress hempty)
    refine ⟨⟨left, by rw [rows_take, hanswer]⟩, fun c hc => ?_, fun hnot => ?_⟩
    · obtain rfl := Position.page.inj (hsome.symm.trans hc)
      rw [hpages, rows_take, List.length_append]
      refine ⟨⟨bytes, hbytes, following, hfollowing, fun hzero => ?_, ?_, rfl⟩, by omega⟩
      · have hval : following.val = 0 := congrArg Fin.val hzero
        omega
      · rw [hanswer, List.length_append, List.length_append]
        have hbehind := List.length_pos_iff.2 hleft
        omega
    · rw [hsome] at hnot
      cases hnot

theorem Sound.step {r after : Reading} {choice : PageChoice} (hhash : s.hashIsValid = true)
    (hfortress : s.fortressId ≠ 0) (hallows : choice.Allows query) (h : Sound s query r)
    (hstep : Step s query r choice after) : Sound s query after := by
  obtain ⟨continuation, hposition, hpage⟩ := hstep
  have hcases := page_cases choice.byteLimit hhash hfortress hallows
    (h.issued continuation hposition).1
  revert hcases hpage
  unfold PageChoice.ask
  cases executeBoundedQuery s (query.page choice.limit continuation) choice.hardLimit
      choice.byteLimit with
  | error e =>
      intro hafter _
      obtain rfl : after = r := hafter
      exact h
  | ok result =>
      intro hafter hcases
      obtain rfl : after = r.take result := hafter
      obtain ⟨bytes, hbytes, hpage⟩ := hcases
      exact h.take hposition hbytes hpage

/-- **Whatever is asked for, the pages read so far are the beginning of the answer.** -/
theorem of_run {choices : List PageChoice} {r : Reading} (hhash : s.hashIsValid = true)
    (hfortress : s.fortressId ≠ 0) (hallows : ∀ choice ∈ choices, choice.Allows query)
    (hrun : Run (Step s query) start choices r) : Sound s query r :=
  hrun.preserves_of_mem (fun _ choice _ hmem hsound hstep =>
    hsound.step hhash hfortress (hallows choice hmem) hstep) sound_start

end Reading

/-! ## Continuations elsewhere -/

/-- No two of the inputs whose digests tell two selections apart collide. -/
structure Distinguished (s t : WorldSnapshot) (query other : WorldQuery) : Prop where
  identity : ∀ bytes bytes', identityBytes s query = .ok bytes →
    identityBytes t other = .ok bytes' → NoCollision bytes bytes'
  cursor : ∀ bytes bytes' offset, identityBytes s query = .ok bytes →
    identityBytes t other = .ok bytes' →
      NoCollision (cursorInput offset (.ofBytes bytes)) (cursorInput offset (.ofBytes bytes'))
  content : NoCollision s.canonicalBytes t.canonicalBytes

theorem cursorInput_injective (offset : U 32) : Function.Injective (cursorInput offset) := by
  intro d e h
  have hbytes := List.append_cancel_left (List.append_cancel_right h)
  rw [putBytes, putBytes, d.length_eq, e.length_eq] at hbytes
  exact Digest32.bytes_injective (List.append_cancel_left hbytes)

/-- **A continuation resumes only what issued it**: a page that accepts it is of the same snapshot
and the same selection. -/
theorem resumes_issuer {s t : WorldSnapshot} {query other : WorldQuery} {token : String}
    {offset : Nat} {choice : PageChoice} {result : QueryResult} (hhash : s.hashIsValid = true)
    (hapart : Distinguished s t query other) (hissued : Issued s query offset (some token))
    (hok : choice.ask t other (some token) = .ok result) :
    s.anchor = t.anchor ∧ s.canonicalBytes = t.canonicalBytes ∧ SameSelection query other := by
  obtain ⟨bytes, hbytes, following, -, hne, -, rfl⟩ := hissued
  unfold PageChoice.ask executeBoundedQuery at hok
  obtain ⟨-, hok⟩ := check_ok_iff.1 hok
  obtain ⟨-, hok⟩ := check_ok_iff.1 hok
  obtain ⟨hvalid, hok⟩ := guard_ok_iff.1 hok
  obtain ⟨identity, hidentity, hok⟩ := bind_ok_iff.1 hok
  obtain ⟨bytes', hbytes', hdigest⟩ := bind_ok_iff.1 hidentity
  replace hbytes' : identityBytes t other = .ok bytes' := hbytes'
  obtain rfl : Digest32.ofBytes bytes' = identity := Except.ok.inj hdigest
  obtain ⟨start, hstart, -⟩ := bind_ok_iff.1 hok
  have hdecode := (@decodeCursor_encodeCursor _ (.ofBytes bytes) hne
    (.ofBytes bytes')).symm.trans hstart
  have hsame : cursorDigest following (.ofBytes bytes) =
      cursorDigest following (.ofBytes bytes') := by
    by_contra hdiffers
    rw [if_neg hdiffers] at hdecode
    cases hdecode
  have hdigests := cursorInput_injective following
    (hapart.cursor bytes bytes' following hbytes hbytes' hsame)
  have hboth := hapart.identity bytes bytes' hbytes hbytes' hdigests
  obtain ⟨hanchor, hselection⟩ := identity_determines hbytes (hboth.symm ▸ hbytes')
  refine ⟨hanchor, hapart.content ?_, hselection⟩
  have hstate : s.stateHash = t.stateHash := congrArg StateAnchor.stateHash hanchor
  have hcomputed := (WorldSnapshot.hashIsValid_iff t).1 (not_not.1 hvalid)
  exact ((WorldSnapshot.hashIsValid_iff s).1 hhash).symm.trans (hstate.trans hcomputed)

end QueryPage

open QueryPage in
/-- **Pagination loses and repeats nothing.** In any run of page requests the pages read so far
are the beginning of the ordered matches, and all of them when no continuation is left; a further
request makes progress or states a budget; and a continuation is refused on every other snapshot
and selection. -/
theorem pagination_exact {s : WorldSnapshot} {query : WorldQuery} {choices : List PageChoice}
    {r : Reading} (hhash : s.hashIsValid = true) (hfortress : s.fortressId ≠ 0)
    (hallows : ∀ choice ∈ choices, choice.Allows query)
    (hrun : Run (Reading.Step s query) .start choices r) :
    (r.pages.flatten <+: query.order.sort (query.matches s) ∧
      (query.order.sort (query.matches s)).Perm (query.matches s)) ∧
    (r.position = .finished → r.pages.flatten = query.order.sort (query.matches s)) ∧
    r.pages.length ≤ max 1 (query.matches s).length ∧
    (∀ (choice : PageChoice) continuation, r.position = .page continuation →
      choice.Allows query →
      (∃ e, choice.ask s query continuation = .error e ∧ e.code = .budgetExceeded) ∨
      ∃ result, choice.ask s query continuation = .ok result ∧
        (result.entities ≠ [] ∨ query.matches s = [])) ∧
    ∀ token, r.position = .page (some token) → ∀ t other (choice : PageChoice) result,
      Distinguished s t query other → choice.ask t other (some token) = .ok result →
      s.anchor = t.anchor ∧ s.canonicalBytes = t.canonicalBytes ∧ SameSelection query other := by
  have hsound := Reading.of_run hhash hfortress hallows hrun
  have hlength : (query.answer s).length = (query.matches s).length :=
    (query.perm_answer s).length_eq
  refine ⟨⟨hsound.inOrder, query.perm_answer s⟩, fun hend => (hsound.complete hend).1, ?_, ?_, ?_⟩
  · cases hposition : r.position with
    | finished => exact hlength ▸ (hsound.complete hposition).2
    | page continuation =>
        have hcount := (hsound.issued continuation hposition).2
        have hpre : r.rows.length ≤ (query.answer s).length := hsound.inOrder.length_le
        omega
  · intro choice continuation hposition hchoice
    have hissued := (hsound.issued continuation hposition).1
    have hpage := page_cases choice.byteLimit hhash hfortress hchoice hissued
    unfold PageChoice.ask
    revert hpage
    cases QueryPage.executeBoundedQuery s (query.page choice.limit continuation)
        choice.hardLimit choice.byteLimit with
    | error e => exact fun hbudget => .inl ⟨e, rfl, hbudget⟩
    | ok result =>
        intro hpage
        obtain ⟨bytes, -, hpage⟩ := hpage
        refine .inr ⟨result, rfl, ?_⟩
        by_cases hempty : result.entities = []
        · refine .inr (List.length_eq_zero_iff.1 ?_)
          rw [← hlength, IsPage.answer_of_empty hpage hissued hempty, List.length_nil]
        · exact .inl hempty
  · intro token hposition t other choice result hapart hok
    exact resumes_issuer hhash hapart (hsound.issued _ hposition).1 hok

/-! ## Two pages -/

namespace QueryPage

theorem encodeKinds_eq {kinds : List EntityKind}
    (h : ∀ kind ∈ kinds, strLen kind.asStr ≤ maxKindBytes) (bytes : Bytes) :
    encodeKinds bytes kinds = .ok (bytes ++ kinds.flatMap entityKindBytes) := by
  induction kinds generalizing bytes with
  | nil => rw [encodeKinds, List.flatMap_nil, List.append_nil]
  | cons kind rest ih =>
      have hname : encodeEntityKind bytes kind = .ok (bytes ++ entityKindBytes kind) := by
        rw [encodeEntityKind, encodeKindName, if_neg (not_lt.2 (h kind List.mem_cons_self)),
          entityKindBytes, List.append_assoc]
      rw [encodeKinds, hname, List.flatMap_cons, ← List.append_assoc]
      exact ih (fun kind hkind => h kind (List.mem_cons_of_mem _ hkind)) _

/-- A query without a predicate has an identity when its kinds are short. -/
theorem identityBytes_eq {s : WorldSnapshot} {query : WorldQuery}
    (hkinds : ∀ kind ∈ query.kinds, strLen kind.asStr ≤ maxKindBytes)
    (hpredicate : query.predicate = none)
    (hlength : (identityParts s query).length ≤ maxQueryIdentityBytes) :
    identityBytes s query = .ok (identityParts s query) := by
  have hsorted : ∀ kind ∈ sortKinds query.kinds, strLen kind.asStr ≤ maxKindBytes :=
    fun kind hkind => hkinds kind (mem_sortKinds.1 hkind)
  have hparts : identityParts s query = putStr "dfmcp-query-identity-v1" ++ putU64 s.fortressId ++
      putU64 s.cursor.epoch ++ putU64 s.cursor.sequence ++ putU64 s.tick ++
      putBytes s.stateHash.bytes ++ putLen (sortKinds query.kinds).length ++
      (sortKinds query.kinds).flatMap entityKindBytes ++ [orderTag query.order] ++ [0] := by
    rw [identityParts, hpredicate]
    simp only [putAnchor, WorldSnapshot.anchor, putCounted, List.append_assoc, Option.getD_none,
      predicateBytes]
  rw [hparts] at hlength ⊢
  refine bind_ok_iff.2 ⟨_, encodeKinds_eq hsorted _, ?_⟩
  rw [hpredicate, Option.getD_none, encodePredicate, checkIdentityLength]
  exact if_neg (not_lt.2 hlength)

/-- A page is the reference evaluator's, under a continuation of its own. -/
theorem executeBoundedQuery_eq {s : WorldSnapshot} {query : WorldQuery} {hardLimit : U 32}
    {byteLimit : Option Nat} {bytes : Bytes} {start : U 32} {result : QueryResult}
    (hvalid : query.validate hardLimit = .ok ()) (hwork : checkWork s query = .ok ())
    (hhash : s.hashIsValid = true) (hbytes : identityBytes s query = .ok bytes)
    (hstart : pageOffset query (.ofBytes bytes) = .ok start)
    (hreference : Dfmcp.executeBoundedQuery s (query.page query.limit
      (query.continuation.map fun _ =>
        (⟨s.fortressId, s.cursor, start⟩ : ContinuationToken).encode)) hardLimit byteLimit =
      .ok result) :
    executeBoundedQuery s query hardLimit byteLimit =
      result.continuation.elim (.ok result) (fun token => do
        let decoded ← ContinuationToken.decode token
        pure { result with continuation := some (encodeCursor decoded.offset (.ofBytes bytes)) }) := by
  have hidentity : queryIdentity s query = .ok (.ofBytes bytes) := by
    rw [queryIdentity, hbytes]
    rfl
  have hnext : ∀ {α β : Type} (a : α) (f : α → Result β), (Except.ok a >>= f) = f a :=
    fun _ _ => rfl
  unfold executeBoundedQuery
  rw [hvalid, hnext, hwork, hnext, if_neg (not_not.2 hhash)]
  dsimp only
  rw [hidentity, hnext, hstart, hnext]
  have hinner : WorldQuery.mk query.kinds query.predicate query.order query.limit
      (query.continuation.map fun _ =>
        (⟨s.fortressId, s.cursor, start⟩ : ContinuationToken).encode) = query.page query.limit
      (query.continuation.map fun _ =>
        (⟨s.fortressId, s.cursor, start⟩ : ContinuationToken).encode) := rfl
  rw [hinner, hreference, hnext]
  cases result.continuation <;> rfl

end QueryPage

namespace Sample

open QueryPage

/-- Two units, a query for the entities of two kinds, and the same query with the kinds in the
other order. -/
def pair : WorldSnapshot := snapshot 0 (entities [entity 1 1, entity 2 1])
def workers : WorldQuery := ⟨[.unit, .job], none, .entityIdAscending, 1, none⟩
def workersReversed : WorldQuery := { workers with kinds := [.job, .unit] }

/-- One row to the page. -/
def oneRow : PageChoice := ⟨1, 1, none⟩

/-- The continuation behind the first page. -/
def secondPage : String := encodeCursor 1 (.ofBytes (identityParts pair workers))

theorem workers_identity : identityBytes pair workers = .ok (identityParts pair workers) := by
  have hstate := pair.stateHash.length_eq
  refine identityBytes_eq (by decide) rfl ?_
  simp only [identityParts, List.length_append, putAnchor, putBytes, WorldSnapshot.anchor, hstate,
    putStr, putLen, putU64, length_beBytes, putCounted]
  decide

theorem workersReversed_identity :
    identityBytes pair workersReversed = .ok (identityParts pair workers) := workers_identity

theorem first_page :
    oneRow.ask pair workers none = .ok ⟨[entity 1 1], 2, true, some secondPage⟩ := by
  have hreference : Dfmcp.executeBoundedQuery pair (workers.page 1 none) 1 none =
      .ok ⟨[entity 1 1], 2, true, some (⟨1, ⟨0, 0⟩, 1⟩ : ContinuationToken).encode⟩ := rfl
  refine (executeBoundedQuery_eq rfl rfl (snapshot_hashIsValid _ _) workers_identity rfl
    hreference).trans ?_
  dsimp only [Option.elim_some]
  rw [decode_encode (by decide)]
  rfl

theorem workers_allowed : oneRow.Allows workers := rfl
theorem workersReversed_allowed : oneRow.Allows workersReversed := rfl

/-- The second page, of either query. -/
theorem second_page {query : WorldQuery} (hquery : query = workers ∨ query = workersReversed) :
    oneRow.ask pair query (some secondPage) = .ok ⟨[entity 2 1], 2, false, none⟩ := by
  have hread := decode_encode (t := ⟨1, ⟨0, 0⟩, 1⟩) (by decide)
  have hallowed : oneRow.Allows query := by
    rcases hquery with rfl | rfl
    · exact workers_allowed
    · exact workersReversed_allowed
  have hidentity : identityBytes pair query = .ok (identityParts pair workers) := by
    rcases hquery with rfl | rfl
    · exact workers_identity
    · exact workersReversed_identity
  have hreference : Dfmcp.executeBoundedQuery pair (query.page 1 (some
      (⟨1, ⟨0, 0⟩, 1⟩ : ContinuationToken).encode)) 1 none = .ok ⟨[entity 2 1], 2, false, none⟩ := by
    have hvalid := WorldQuery.validate_page hallowed (strLen_encode_le ⟨1, ⟨0, 0⟩, 1⟩)
    have hoffset : (query.page 1 (some (⟨1, ⟨0, 0⟩, 1⟩ : ContinuationToken).encode)).offset pair =
        .ok 1 := by
      unfold WorldQuery.offset
      dsimp only [WorldQuery.page]
      rw [hread]
      rfl
    unfold Dfmcp.executeBoundedQuery
    rw [show (query.page 1 _).validate 1 = _ from hvalid, hoffset]
    rcases hquery with rfl | rfl <;> rfl
  have hstart : pageOffset (query.page 1 (some secondPage))
      (.ofBytes (identityParts pair workers)) = .ok 1 :=
    (decodeCursor_encodeCursor (by decide) _).trans (if_pos rfl)
  have hwork : checkWork pair (query.page 1 (some secondPage)) = .ok () := by
    rcases hquery with rfl | rfl <;> rfl
  exact executeBoundedQuery_eq (WorldQuery.validate_page hallowed (strLen_encodeCursor_le _ _))
    hwork (snapshot_hashIsValid _ _) hidentity hstart hreference

theorem workers_run : Run (Reading.Step pair workers) .start [oneRow, oneRow]
    ⟨[[entity 1 1], [entity 2 1]], .finished⟩ := by
  refine .cons (t := ⟨[[entity 1 1]], .page (some secondPage)⟩) ⟨none, rfl, ?_⟩
    (.cons ⟨some secondPage, rfl, ?_⟩ (.nil _))
  · rw [first_page]
    rfl
  · rw [second_page (.inl rfl)]
    rfl

end Sample

open QueryPage in
/-- Two rows, one to a page. -/
theorem pagination_exact_pair :
    ∃ r : Reading, Run (Reading.Step Sample.pair Sample.workers) .start
        [Sample.oneRow, Sample.oneRow] r ∧ r.position = .finished ∧
      r.pages.flatten = Sample.workers.order.sort (Sample.workers.matches Sample.pair) := by
  have hallows : ∀ choice ∈ [Sample.oneRow, Sample.oneRow], choice.Allows Sample.workers := by
    intro choice hchoice
    simp only [List.mem_cons, List.not_mem_nil, or_false, or_self] at hchoice
    rw [hchoice]
    exact Sample.workers_allowed
  exact ⟨_, Sample.workers_run, rfl, (pagination_exact (Sample.snapshot_hashIsValid _ _) (by decide)
    hallows Sample.workers_run).2.1 rfl⟩

open QueryPage in
/-- A continuation is accepted by a query that names the same kinds in another order. -/
theorem continuation_crosses_queries :
    ∃ (s : WorldSnapshot) (query other : WorldQuery) (choice : PageChoice) (token : String)
      (page next : QueryResult), s.hashIsValid = true ∧ s.fortressId ≠ 0 ∧
      choice.Allows query ∧ choice.Allows other ∧ query.kinds ≠ other.kinds ∧
      choice.ask s query none = .ok page ∧ page.continuation = some token ∧
      choice.ask s other (some token) = .ok next :=
  ⟨Sample.pair, Sample.workers, Sample.workersReversed, Sample.oneRow, Sample.secondPage, _, _,
    Sample.snapshot_hashIsValid _ _, by decide, Sample.workers_allowed,
    Sample.workersReversed_allowed, by decide, Sample.first_page, rfl,
    Sample.second_page (.inr rfl)⟩

end Dfmcp
