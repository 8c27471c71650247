import Dfmcp.World.JournalDelta

/-!
# Journal deltas: the codec is lossless, and safe

A delta is a header and a list of commands. `Command` is the abstract syntax of a command, with
what it produces and when it fits a base; the encoder appends commands, and the two walks of the
decoder read back exactly the commands that are there.

* `Writes` — the encoder's bytes are a header and commands that produce a prefix of the target;
* `checkCommands_ok_iff` — the preflight accepts exactly the encodings of commands that fit;
* `delta_codec` — **what was encoded decodes to the target and is worth it, what validates decodes
  against every base of its length, and what does not yields nothing.**
-/

namespace Dfmcp

namespace JournalDelta

open Machine Wire

/-! ## Commands -/

inductive Command where
  | literal (value : Bytes)
  | copy (offset length : Nat)

namespace Command

def encode : Command → Bytes
  | literal value => [0] ++ (beBytes 4 value.length ++ value)
  | copy offset length => [1] ++ (beBytes 4 offset ++ beBytes 4 length)

/-- The number of bytes a command produces. -/
def amount : Command → Nat
  | literal value => value.length
  | copy _ length => length

def output (base : Bytes) : Command → Bytes
  | literal value => value
  | copy offset length => slice base offset (offset + length)

/-- The command produces something, from a base of the given length, and its numbers are stored in
32 bits. -/
def Fits (baseLength : Nat) (command : Command) : Prop :=
  0 < command.amount ∧ match command with
    | literal value => value.length < 2 ^ 32
    | copy offset length => offset + length ≤ baseLength ∧ offset < 2 ^ 32 ∧ length < 2 ^ 32

theorem length_output {base : Bytes} {command : Command} (h : command.Fits base.length) :
    (command.output base).length = command.amount := by
  cases command with
  | literal value => rfl
  | copy offset length =>
      have hfits := h.2.1
      simp only [output, amount, slice, List.length_drop, List.length_take]
      omega

end Command

def encodeAll (commands : List Command) : Bytes := commands.flatMap Command.encode

def outputAll (base : Bytes) (commands : List Command) : Bytes :=
  commands.flatMap (Command.output base)

theorem length_outputAll {base : Bytes} {commands : List Command}
    (h : ∀ command ∈ commands, command.Fits base.length) :
    (outputAll base commands).length = (commands.map Command.amount).sum := by
  rw [outputAll, List.length_flatMap]
  exact congrArg List.sum (List.map_congr_left fun command hc => Command.length_output (h _ hc))

/-! ## Slices -/

theorem take_append_slice {bytes : Bytes} {start stop : Nat} (h : start ≤ stop) :
    bytes.take start ++ slice bytes start stop = bytes.take stop := by
  have htake : bytes.take start = (bytes.take stop).take start := by
    rw [List.take_take, min_eq_left h]
  rw [htake, slice, List.take_append_drop]

theorem length_slice_le (bytes : Bytes) (start stop : Nat) :
    (slice bytes start stop).length ≤ bytes.length := by
  simp only [slice, List.length_drop, List.length_take]
  omega

theorem common_le_left (as bs : Bytes) : common as bs ≤ as.length := by
  induction as generalizing bs with
  | nil => simp [common]
  | cons a as ih =>
      cases bs with
      | nil => simp [common]
      | cons b bs =>
          have := ih bs
          simp only [common, List.length_cons]
          split <;> omega

theorem common_le_right (as bs : Bytes) : common as bs ≤ bs.length := by
  induction as generalizing bs with
  | nil => simp [common]
  | cons a as ih =>
      cases bs with
      | nil => simp [common]
      | cons b bs =>
          have := ih bs
          simp only [common, List.length_cons]
          split <;> omega

theorem take_common (as bs : Bytes) : as.take (common as bs) = bs.take (common as bs) := by
  induction as generalizing bs with
  | nil => simp [common]
  | cons a as ih =>
      cases bs with
      | nil => simp [common]
      | cons b bs =>
          simp only [common]
          split
          · rename_i hab
            rw [List.take_succ_cons, List.take_succ_cons, ih bs, hab]
          · rfl

/-- The bytes of an unchanged run are those of the base. -/
theorem slice_common {base target : Bytes} {position stop k : Nat}
    (hk : k = common (slice target position stop) (base.drop position)) :
    slice base position (position + k) = slice target position (position + k) ∧
      (0 < k → position + k ≤ stop ∧ position + k ≤ base.length) := by
  have hleft := common_le_left (slice target position stop) (base.drop position)
  have hright := common_le_right (slice target position stop) (base.drop position)
  have htake := take_common (slice target position stop) (base.drop position)
  rw [← hk] at hleft hright htake
  simp only [slice, List.length_drop, List.length_take] at hleft hright
  refine ⟨?_, fun hpos => by omega⟩
  by_cases hzero : k = 0
  · subst hzero
    simp [slice]
  · have hstop : position + k ≤ stop := by omega
    rw [slice, slice, List.drop_take, List.drop_take, Nat.add_sub_cancel_left]
    rw [slice, List.drop_take, List.take_take, min_eq_left (by omega)] at htake
    exact htake.symm

/-- The bytes of the common suffix are those of the base. -/
theorem drop_suffixLength (base target : Bytes) :
    suffixLength base target ≤ base.length ∧ suffixLength base target ≤ target.length ∧
      base.drop (base.length - suffixLength base target) =
        target.drop (target.length - suffixLength base target) := by
  have hleft := common_le_left base.reverse target.reverse
  have hright := common_le_right base.reverse target.reverse
  have htake := take_common base.reverse target.reverse
  rw [List.length_reverse] at hleft hright
  simp only [suffixLength]
  by_cases hlong : common base.reverse target.reverse ≥ minCopy
  · rw [if_pos hlong]
    refine ⟨hleft, hright, ?_⟩
    rw [List.take_reverse, List.take_reverse] at htake
    exact List.reverse_injective htake
  · rw [if_neg hlong]
    simp

/-! ## What the encoder writes -/

/-- The encoder's bytes are the header and commands that produce `out`, at most `maximum` of them. -/
def Writes (base start : Bytes) (maximum : Nat) (encoder : Encoder) (out : Bytes) : Prop :=
  ∃ commands : List Command, encoder.bytes = start ++ encodeAll commands ∧
    encoder.commands = commands.length ∧ (∀ command ∈ commands, command.Fits base.length) ∧
    outputAll base commands = out ∧ commands.length ≤ maxCommands ∧
    encoder.bytes.length ≤ maximum ∧ encoder.maximum = maximum

theorem Writes.append {base start out : Bytes} {maximum : Nat} {encoder encoder' : Encoder} {command : Command}
    (h : Writes base start maximum encoder out) (hfits : command.Fits base.length)
    (hroom : encoder.room command.encode.length = true)
    (hnext : encoder' = { encoder with
      bytes := encoder.bytes ++ command.encode, commands := encoder.commands + 1 }) :
    Writes base start maximum encoder' (out ++ command.output base) := by
  obtain ⟨commands, hbytes, hcount, hall, hout, hmax, hlen, heq⟩ := h
  have hroom' : encoder.commands < maxCommands ∧
      command.encode.length ≤ encoder.maximum - encoder.bytes.length := by
    simpa [Encoder.room] using hroom
  subst hnext
  refine ⟨commands ++ [command], ?_, ?_, ?_, ?_, ?_, ?_, heq⟩
  · simp [hbytes, encodeAll]
  · simp [hcount]
  · intro c hc
    rcases List.mem_append.1 hc with hc | hc
    · exact hall c hc
    · rwa [List.mem_singleton.1 hc]
  · simp [outputAll, ← hout]
  · rw [List.length_append, List.length_singleton]
    omega
  · rw [List.length_append]
    have hpos : 0 < command.encode.length := by cases command <;> simp [Command.encode]
    omega

theorem Writes.literal {base start out value : Bytes} {maximum : Nat}
    {encoder encoder' : Encoder}
    (h : Writes base start maximum encoder out) (hvalue : value.length < 2 ^ 32)
    (heq : encoder.literal value = some encoder') : Writes base start maximum encoder' (out ++ value) := by
  unfold Encoder.literal at heq
  by_cases hnil : value = []
  · rw [if_pos hnil] at heq
    obtain rfl := Option.some.inj heq
    rwa [hnil, List.append_nil]
  · rw [if_neg hnil] at heq
    by_cases hroom : encoder.room (5 + value.length) = true
    · rw [if_neg (by simp [hroom])] at heq
      have hlen : (Command.literal value).encode.length = 5 + value.length := by
        simp [Command.encode]
        omega
      refine @Writes.append _ _ _ _ _ _ (.literal value) h
        ⟨List.length_pos_iff.2 hnil, hvalue⟩ (by rwa [hlen]) ?_
      rw [← Option.some.inj heq]
      simp [Command.encode]
    · rw [if_pos hroom] at heq
      cases heq

theorem Writes.copy {base start out : Bytes} {maximum : Nat} {encoder encoder' : Encoder}
    {offset length : Nat}
    (h : Writes base start maximum encoder out) (hbase : base.length < 2 ^ 32)
    (hfits : offset + length ≤ base.length) (heq : encoder.copy offset length = some encoder') :
    Writes base start maximum encoder' (out ++ slice base offset (offset + length)) := by
  unfold Encoder.copy at heq
  by_cases hzero : length = 0
  · rw [if_pos hzero] at heq
    obtain rfl := Option.some.inj heq
    simpa [slice, hzero] using h
  · rw [if_neg hzero] at heq
    by_cases hroom : encoder.room 9 = true
    · rw [if_neg (by simp [hroom])] at heq
      have hlen : (Command.copy offset length).encode.length = 9 := by simp [Command.encode]
      refine @Writes.append _ _ _ _ _ _ (.copy offset length) h
        ⟨Nat.pos_of_ne_zero hzero, hfits, by omega, by omega⟩ (by rwa [hlen]) ?_
      rw [← Option.some.inj heq]
      simp [Command.encode]
    · rw [if_pos hroom] at heq
      cases heq

/-- **The scan writes the target up to where the last literal starts.** -/
theorem Writes.scan {base target start : Bytes} {stop maximum : Nat} (hstop : stop ≤ target.length)
    (hbase : base.length < 2 ^ 32) (htarget : target.length < 2 ^ 32) (encoder : Encoder)
    (position literalStart : Nat) {out : Encoder × Nat}
    (h : Writes base start maximum encoder (target.take literalStart)) (hle : literalStart ≤ position)
    (hpos : position ≤ stop)
    (heq : JournalDelta.scan base target stop encoder position literalStart = some out) :
    Writes base start maximum out.1 (target.take out.2) ∧ out.2 ≤ stop := by
  induction encoder, position, literalStart using JournalDelta.scan.induct base target stop with
  | case1 encoder position literalStart hlt run next ending hlong ih =>
      obtain ⟨hslice, hrange⟩ := @slice_common base target position stop _ rfl
      have hnext : position ≤ next ∧ next ≤ stop ∧ next ≤ base.length := by
        have hk : 0 < common (slice target position stop) (base.drop position) := by
          have : minCopy ≤ next - run := hlong
          unfold minCopy at this
          omega
        obtain ⟨hle', hbase'⟩ := hrange hk
        exact ⟨Nat.le_add_right _ _, hle', hbase'⟩
      have hending : next ≤ ending ∧ ending ≤ stop := by
        show next ≤ (if next < stop then next + 1 else next) ∧
          (if next < stop then next + 1 else next) ≤ stop
        split <;> omega
      rw [JournalDelta.scan, dif_pos hlt] at heq
      simp only [] at heq
      rw [if_pos hlong] at heq
      obtain ⟨withLiteral, hliteral, heq⟩ := Option.bind_eq_some_iff.1 heq
      obtain ⟨withCopy, hcopy, heq⟩ := Option.bind_eq_some_iff.1 heq
      have hshort := length_slice_le target literalStart position
      have hwrites := h.literal (by omega) hliteral
      rw [take_append_slice hle] at hwrites
      have hrun : position + (next - position) = next := by omega
      have hwrites := hwrites.copy hbase (by omega) hcopy
      rw [hrun, hslice, take_append_slice hnext.1] at hwrites
      exact ih withCopy hwrites hending.1 hending.2 heq
  | case2 encoder position literalStart hlt run next ending hshort ih =>
      have hrange := (@slice_common base target position stop _ rfl).2
      have hnext : position ≤ next ∧ next ≤ stop := by
        refine ⟨Nat.le_add_right _ _, ?_⟩
        by_cases hk : 0 < common (slice target position stop) (base.drop position)
        · exact (hrange hk).1
        · show position + common (slice target position stop) (base.drop position) ≤ stop
          omega
      have hending : literalStart ≤ ending ∧ ending ≤ stop := by
        show literalStart ≤ (if next < stop then next + 1 else next) ∧
          (if next < stop then next + 1 else next) ≤ stop
        split <;> omega
      rw [JournalDelta.scan, dif_pos hlt] at heq
      simp only [] at heq
      rw [if_neg hshort] at heq
      exact ih h hending.1 hending.2 heq
  | case3 encoder position literalStart hge =>
      rw [JournalDelta.scan, dif_neg hge] at heq
      rw [← Option.some.inj heq]
      exact ⟨h, hle.trans hpos⟩

/-- What `encode` returns is a header and commands that produce the target. -/
theorem encode_some {base target encoded : Bytes} (h : encode base target = .ok (some encoded)) :
    base.length ≤ maxPayload ∧ target.length ≤ maxPayload ∧
      encoded.length + minSavings ≤ target.length ∧
      ∃ commands : List Command,
        encoded = magic ++ beBytes 4 base.length ++ beBytes 4 target.length ++
          beBytes 4 commands.length ++ encodeAll commands ∧
        (∀ command ∈ commands, command.Fits base.length) ∧
        outputAll base commands = target ∧ 0 < commands.length ∧
        commands.length ≤ maxCommands := by
  unfold encode at h
  by_cases hlimit : base.length > maxPayload ∨ target.length > maxPayload
  · rw [if_pos hlimit] at h
    cases h
  rw [if_neg hlimit] at h
  by_cases hsmall : target.length < minSavings
  · rw [if_pos hsmall] at h
    cases h
  rw [if_neg hsmall] at h
  by_cases hroom : target.length - minSavings < header + 9
  · rw [if_pos hroom] at h
    cases h
  rw [if_neg hroom] at h
  have hbase : base.length ≤ maxPayload := by omega
  have htarget : target.length ≤ maxPayload := by omega
  have hword : maxPayload < 2 ^ 32 := by decide
  cases hbody : encodeBody base target (target.length - minSavings) with
  | none =>
      rw [hbody] at h
      cases h
  | some encoder =>
      rw [hbody] at h
      obtain rfl := Option.some.inj (Except.ok.inj h)
      simp only [encodeBody] at hbody
      obtain ⟨⟨scanned, literalStart⟩, hscan, hbody⟩ := Option.bind_eq_some_iff.1 hbody
      obtain ⟨withLiteral, hliteral, hcopy⟩ := Option.bind_eq_some_iff.1 hbody
      obtain ⟨hsuffixBase, hsuffixTarget, hsuffix⟩ := drop_suffixLength base target
      have hstart : Writes base
          (magic ++ beBytes 4 base.length ++ beBytes 4 target.length ++ beBytes 4 0)
          (target.length - minSavings)
          ⟨magic ++ beBytes 4 base.length ++ beBytes 4 target.length ++ beBytes 4 0, 0,
            target.length - minSavings⟩ (target.take 0) := by
        refine ⟨[], by simp [encodeAll], rfl, nofun, rfl, Nat.zero_le _, ?_, rfl⟩
        have hmagic : magic.length = 8 := by decide
        simp only [List.length_append, length_beBytes, hmagic]
        unfold header at hroom
        omega
      obtain ⟨hwrites, hle⟩ := hstart.scan (Nat.sub_le _ _) (by omega) (by omega) _ 0 0 le_rfl
        (Nat.zero_le _) hscan
      have hshort := length_slice_le target literalStart
        (target.length - suffixLength base target)
      have hwrites := hwrites.literal (lt_of_le_of_lt hshort (by omega)) hliteral
      rw [take_append_slice hle] at hwrites
      have hend : base.length - suffixLength base target + suffixLength base target =
          base.length := by omega
      have hwrites := hwrites.copy (by omega) (by omega) hcopy
      rw [hend, slice, List.take_length, hsuffix, List.take_append_drop] at hwrites
      obtain ⟨commands, hbytes, hcount, hfits, hout, hmax, hlen, -⟩ := hwrites
      have hheader : (magic ++ beBytes 4 base.length ++ beBytes 4 target.length).length = 16 := by
        have hmagic : magic.length = 8 := by decide
        simp only [List.length_append, length_beBytes, hmagic]
      have htake : encoder.bytes.take 16 =
          magic ++ beBytes 4 base.length ++ beBytes 4 target.length := by
        rw [hbytes, List.append_assoc, List.take_append_of_le_length hheader.ge,
          List.take_of_length_le hheader.le]
      have hdrop : encoder.bytes.drop 20 = encodeAll commands := by
        have hstart : (magic ++ beBytes 4 base.length ++ beBytes 4 target.length ++
            beBytes 4 0).length = 20 := by
          rw [List.length_append, hheader, length_beBytes]
        rw [hbytes, List.drop_append_of_le_length hstart.ge, List.drop_of_length_le hstart.le,
          List.nil_append]
      refine ⟨hbase, htarget, ?_, commands, ?_, hfits, hout, ?_, hmax⟩
      · simp only [List.length_append, List.length_take, List.length_drop, length_beBytes]
        rw [hbytes, List.length_append, List.length_append, hheader, length_beBytes] at hlen ⊢
        omega
      · rw [htake, hdrop, hcount]
      · apply Nat.pos_of_ne_zero
        intro hzero
        rw [List.length_eq_zero_iff.1 hzero] at hout
        have hempty : target.length = 0 := by rw [← hout]; rfl
        unfold minSavings at hsmall
        omega

/-! ## What the decoder reads -/

theorem u32_ok_iff {bs rest : Bytes} {n : Nat} :
    u32 bs = .ok (n, rest) ↔ n < 2 ^ 32 ∧ bs = beBytes 4 n ++ rest := by
  unfold u32
  rw [run_bind_ok_iff]
  constructor
  · rintro ⟨bytes, tail, htake, hpure⟩
    obtain ⟨rfl, hlen⟩ := run_take_ok_iff.1 htake
    obtain ⟨rfl, rfl⟩ := run_pure_ok_iff.1 hpure
    have hlt := ofBe_lt bytes
    have hbytes := beBytes_ofBe bytes
    rw [hlen] at hlt hbytes
    exact ⟨hlt, by rw [hbytes]⟩
  · rintro ⟨hn, rfl⟩
    refine ⟨beBytes 4 n, rest, run_take_ok_iff.2 ⟨rfl, length_beBytes 4 n⟩, run_pure_ok_iff.2 ⟨?_, rfl⟩⟩
    rw [ofBe_beBytes]
    exact (Nat.mod_eq_of_lt hn).symm

theorem commandAmount_ok_iff {base bs rest : Bytes} {amount : Nat} :
    commandAmount base bs = .ok (amount, rest) ∧ amount ≠ 0 ↔
      ∃ command : Command, bs = command.encode ++ rest ∧ command.Fits base.length ∧
        amount = command.amount := by
  unfold commandAmount
  rw [run_bind_ok_iff]
  constructor
  · rintro ⟨⟨tag, afterTag, htag, h⟩, hpos⟩
    obtain ⟨rfl, -⟩ := run_take_ok_iff.1 htag
    by_cases hliteral : tag = [0]
    · rw [if_pos hliteral] at h
      obtain ⟨n, _, hn, hafter⟩ := run_bind_ok_iff.1 h
      obtain ⟨hlt, rfl⟩ := u32_ok_iff.1 hn
      obtain ⟨value, _, hvalue, hpure⟩ := run_bind_ok_iff.1 hafter
      obtain ⟨rfl, rfl⟩ := run_take_ok_iff.1 hvalue
      obtain ⟨rfl, rfl⟩ := run_pure_ok_iff.1 hpure
      refine ⟨.literal value, ?_, ⟨Nat.pos_of_ne_zero hpos, hlt⟩, rfl⟩
      rw [hliteral, Command.encode]
      simp
    · rw [if_neg hliteral] at h
      by_cases hcopy : tag = [1]
      · rw [if_pos hcopy] at h
        obtain ⟨offset, _, hread, hafter⟩ := run_bind_ok_iff.1 h
        obtain ⟨hoffset, rfl⟩ := u32_ok_iff.1 hread
        obtain ⟨n, _, hread', hrest⟩ := run_bind_ok_iff.1 hafter
        obtain ⟨hn, rfl⟩ := u32_ok_iff.1 hread'
        by_cases hrange : offset > base.length ∨ n > base.length - offset
        · rw [if_pos hrange] at hrest
          exact absurd hrest nofun
        · rw [if_neg hrange] at hrest
          obtain ⟨rfl, rfl⟩ := run_pure_ok_iff.1 hrest
          refine ⟨.copy offset amount, ?_, ⟨Nat.pos_of_ne_zero hpos, by omega, hoffset, hn⟩, rfl⟩
          rw [hcopy, Command.encode]
          simp
      · rw [if_neg hcopy] at h
        exact absurd h nofun
  · rintro ⟨command, rfl, hfits, rfl⟩
    refine ⟨?_, Nat.ne_of_gt hfits.1⟩
    cases command with
    | literal value =>
        refine ⟨[0], beBytes 4 value.length ++ (value ++ rest), run_take_ok_iff.2 ⟨by
          simp [Command.encode], rfl⟩, ?_⟩
        rw [if_pos rfl]
        refine run_bind_ok_iff.2 ⟨_, _, u32_ok_iff.2 ⟨hfits.2, rfl⟩, ?_⟩
        exact run_bind_ok_iff.2 ⟨_, _, run_take_ok_iff.2 ⟨rfl, rfl⟩, rfl⟩
    | copy offset n =>
        obtain ⟨-, hrange, hoffset, hn⟩ := hfits
        refine ⟨[1], beBytes 4 offset ++ (beBytes 4 n ++ rest), run_take_ok_iff.2 ⟨by
          simp [Command.encode], rfl⟩, ?_⟩
        rw [if_neg (by decide), if_pos rfl]
        refine run_bind_ok_iff.2 ⟨_, _, u32_ok_iff.2 ⟨hoffset, rfl⟩, ?_⟩
        refine run_bind_ok_iff.2 ⟨_, _, u32_ok_iff.2 ⟨hn, rfl⟩, ?_⟩
        rw [if_neg (by omega)]
        rfl

/-- **The preflight of one command accepts exactly the commands that fit.** -/
theorem checkCommand_ok_iff {base bs rest : Bytes} {length produced after : Nat} :
    checkCommand base length produced bs = .ok (after, rest) ↔
      ∃ command : Command, bs = command.encode ++ rest ∧ command.Fits base.length ∧
        command.amount ≤ length - produced ∧ after = produced + command.amount := by
  unfold checkCommand
  rw [run_bind_ok_iff]
  constructor
  · rintro ⟨amount, tail, hamount, h⟩
    by_cases hbad : amount = 0 ∨ amount > length - produced
    · rw [if_pos hbad] at h
      exact absurd h nofun
    · rw [if_neg hbad] at h
      obtain ⟨rfl, rfl⟩ := run_pure_ok_iff.1 h
      obtain ⟨command, rfl, hfits, rfl⟩ := commandAmount_ok_iff.1 ⟨hamount, by omega⟩
      exact ⟨command, rfl, hfits, by omega, rfl⟩
  · rintro ⟨command, rfl, hfits, hle, rfl⟩
    have hpos := hfits.1
    refine ⟨command.amount, rest, (commandAmount_ok_iff.2 ⟨command, rfl, hfits, rfl⟩).1, ?_⟩
    rw [if_neg (by omega)]
    rfl

/-- What a command that fits produces is read back from its bytes. -/
theorem expandCommand_encode {base : Bytes} {command : Command} (h : command.Fits base.length)
    (rest : Bytes) :
    expandCommand base (command.encode ++ rest) = .ok (command.output base, rest) := by
  unfold expandCommand
  cases command with
  | literal value =>
      refine run_bind_ok_iff.2 ⟨[0], beBytes 4 value.length ++ (value ++ rest), run_take_ok_iff.2 ⟨by
        simp [Command.encode], rfl⟩, ?_⟩
      rw [if_pos rfl]
      refine run_bind_ok_iff.2 ⟨_, _, u32_ok_iff.2 ⟨h.2, rfl⟩, ?_⟩
      exact run_take_ok_iff.2 ⟨rfl, rfl⟩
  | copy offset n =>
      obtain ⟨-, hrange, hoffset, hn⟩ := h
      refine run_bind_ok_iff.2 ⟨[1], beBytes 4 offset ++ (beBytes 4 n ++ rest), run_take_ok_iff.2 ⟨by
        simp [Command.encode], rfl⟩, ?_⟩
      rw [if_neg (by decide), if_pos rfl]
      refine run_bind_ok_iff.2 ⟨_, _, u32_ok_iff.2 ⟨hoffset, rfl⟩, ?_⟩
      refine run_bind_ok_iff.2 ⟨_, _, u32_ok_iff.2 ⟨hn, rfl⟩, ?_⟩
      rw [if_neg (by omega)]
      rfl

theorem expandCommands_encodeAll {base : Bytes} {commands : List Command}
    (h : ∀ command ∈ commands, command.Fits base.length) (output rest : Bytes) :
    expandCommands base commands.length output (encodeAll commands ++ rest) =
      .ok (output ++ outputAll base commands, rest) := by
  induction commands generalizing output with
  | nil => simp [expandCommands, encodeAll, outputAll, Pure.pure, StateT.pure, Except.pure]
  | cons command commands ih =>
      rw [List.length_cons, expandCommands]
      refine run_bind_ok_iff.2 ⟨command.output base, encodeAll commands ++ rest, ?_, ?_⟩
      · rw [encodeAll, List.flatMap_cons, List.append_assoc]
        exact expandCommand_encode (h command List.mem_cons_self) _
      · rw [ih fun c hc => h c (List.mem_cons_of_mem _ hc)]
        simp [outputAll]

/-- **The preflight accepts exactly the commands that fit and do not exceed the length.** -/
theorem checkCommands_ok_iff {base bs rest : Bytes} {length count produced after : Nat} :
    checkCommands base length count produced bs = .ok (after, rest) ↔
      ∃ commands : List Command, commands.length = count ∧ bs = encodeAll commands ++ rest ∧
        (∀ command ∈ commands, command.Fits base.length) ∧
        after = produced + (commands.map Command.amount).sum ∧
        (commands = [] ∨ after ≤ length) := by
  induction count generalizing bs produced with
  | zero =>
      rw [checkCommands, run_pure_ok_iff]
      constructor
      · rintro ⟨rfl, rfl⟩
        exact ⟨[], rfl, rfl, nofun, rfl, .inl rfl⟩
      · rintro ⟨commands, hlen, rfl, -, rfl, -⟩
        rw [List.length_eq_zero_iff.1 hlen]
        exact ⟨rfl, rfl⟩
  | succ count ih =>
      rw [checkCommands, run_bind_ok_iff]
      constructor
      · rintro ⟨middle, tail, hfirst, hrest⟩
        obtain ⟨command, rfl, hfits, hle, rfl⟩ := checkCommand_ok_iff.1 hfirst
        obtain ⟨commands, hlen, rfl, hall, rfl, hbound⟩ := ih.1 hrest
        refine ⟨command :: commands, by simp [hlen], by simp [encodeAll], ?_, ?_, .inr ?_⟩
        · intro c hc
          rcases List.mem_cons.1 hc with rfl | hc
          · exact hfits
          · exact hall c hc
        · simp [Nat.add_assoc]
        · rcases hbound with rfl | hbound
          · have := hfits.1
            simp only [List.map_nil, List.sum_nil]
            omega
          · exact hbound
      · rintro ⟨commands, hlen, rfl, hall, rfl, hbound⟩
        cases commands with
        | nil => cases hlen
        | cons command commands =>
            have hle := hbound.resolve_left (by simp)
            have hsum : ((command :: commands).map Command.amount).sum =
                command.amount + (commands.map Command.amount).sum := by simp
            refine ⟨produced + command.amount, encodeAll commands ++ rest,
              checkCommand_ok_iff.2 ⟨command, by simp [encodeAll], hall command List.mem_cons_self,
                by omega, rfl⟩, ih.2 ⟨commands, by simpa using hlen, rfl,
                fun c hc => hall c (List.mem_cons_of_mem _ hc), by omega, .inr (by omega)⟩⟩

theorem checkHeader_ok_iff {base bs rest : Bytes} {maximum length count : Nat} :
    checkHeader base maximum bs = .ok ((length, count), rest) ↔
      bs = magic ++ (beBytes 4 base.length ++ (beBytes 4 length ++ (beBytes 4 count ++ rest))) ∧
        base.length < 2 ^ 32 ∧ length < 2 ^ 32 ∧ count < 2 ^ 32 ∧ length ≤ maximum ∧ 0 < count ∧
        count ≤ maxCommands := by
  unfold checkHeader
  rw [run_bind_ok_iff]
  constructor
  · rintro ⟨found, _, hfound, h⟩
    obtain ⟨rfl, -⟩ := run_take_ok_iff.1 hfound
    by_cases hmagic : found ≠ magic
    · rw [if_pos hmagic] at h
      exact absurd h nofun
    rw [if_neg hmagic] at h
    obtain ⟨baseLength, _, hread, hafter⟩ := run_bind_ok_iff.1 h
    obtain ⟨hbase, rfl⟩ := u32_ok_iff.1 hread
    by_cases hdiffers : baseLength ≠ base.length
    · rw [if_pos hdiffers] at hafter
      exact absurd hafter nofun
    rw [if_neg hdiffers] at hafter
    obtain ⟨declared, _, hread', hlimit⟩ := run_bind_ok_iff.1 hafter
    obtain ⟨hlength, rfl⟩ := u32_ok_iff.1 hread'
    by_cases hlong : declared > maximum
    · rw [if_pos hlong] at hlimit
      exact absurd hlimit nofun
    rw [if_neg hlong] at hlimit
    obtain ⟨n, _, hread'', hpure⟩ := run_bind_ok_iff.1 hlimit
    obtain ⟨hn, rfl⟩ := u32_ok_iff.1 hread''
    by_cases hcount : n = 0 ∨ n > maxCommands
    · rw [if_pos hcount] at hpure
      exact absurd hpure nofun
    rw [if_neg hcount] at hpure
    obtain ⟨hpair, rfl⟩ := run_pure_ok_iff.1 hpure
    obtain ⟨rfl, rfl⟩ := Prod.mk.inj hpair
    rw [not_not.1 hmagic, ← not_not.1 hdiffers]
    exact ⟨rfl, hbase, hlength, hn, by omega, by omega, by omega⟩
  · rintro ⟨rfl, hbase, hlength, hcount, hle, hpos, hmax⟩
    refine ⟨magic, _, run_take_ok_iff.2 ⟨rfl, by decide⟩, ?_⟩
    rw [if_neg (not_not.2 rfl)]
    refine run_bind_ok_iff.2 ⟨_, _, u32_ok_iff.2 ⟨hbase, rfl⟩, ?_⟩
    rw [if_neg (not_not.2 rfl)]
    refine run_bind_ok_iff.2 ⟨_, _, u32_ok_iff.2 ⟨hlength, rfl⟩, ?_⟩
    rw [if_neg (not_lt.2 hle)]
    refine run_bind_ok_iff.2 ⟨_, _, u32_ok_iff.2 ⟨hcount, rfl⟩, ?_⟩
    rw [if_neg (by omega)]
    rfl

/-- **What validates** is a header and commands that fit and produce the declared length. -/
theorem validate_ok_iff {base encoded body : Bytes} {maximum length count : Nat} :
    validate base encoded maximum = .ok (length, count, body) ↔
      (maximum ≤ maxPayload ∧ base.length ≤ maxPayload ∧ encoded.length ≤ maxPayload) ∧
      checkHeader base maximum encoded = .ok ((length, count), body) ∧
      ∃ commands : List Command, commands.length = count ∧ body = encodeAll commands ∧
        (∀ command ∈ commands, command.Fits base.length) ∧
        (commands.map Command.amount).sum = length := by
  unfold validate
  by_cases hlimit : maximum > maxPayload ∨ base.length > maxPayload ∨ encoded.length > maxPayload
  · rw [if_pos hlimit]
    constructor
    · intro h
      cases h
    · rintro ⟨hbounds, -⟩
      omega
  rw [if_neg hlimit]
  have hbounds : maximum ≤ maxPayload ∧ base.length ≤ maxPayload ∧
      encoded.length ≤ maxPayload := by omega
  constructor
  · intro h
    obtain ⟨⟨⟨declared, n⟩, start⟩, hheader, h⟩ := bind_ok_iff.1 h
    obtain ⟨⟨produced, rest⟩, hcommands, h⟩ := bind_ok_iff.1 h
    by_cases hend : produced ≠ declared ∨ rest ≠ []
    · simp only [if_pos hend] at h
      cases h
    simp only [if_neg hend] at h
    have hparts := Except.ok.inj h
    simp only [Prod.mk.injEq] at hparts
    obtain ⟨rfl, rfl, rfl⟩ := hparts
    obtain ⟨commands, hlen, hbody, hfits, hsum, -⟩ := checkCommands_ok_iff.1 hcommands
    have hproduced : produced = declared := by
      by_contra hne
      exact hend (.inl hne)
    have hrest : rest = [] := by
      by_contra hne
      exact hend (.inr hne)
    refine ⟨hbounds, hheader, commands, hlen, ?_, hfits, ?_⟩
    · rw [hbody, hrest, List.append_nil]
    · omega
  · rintro ⟨-, hheader, commands, hlen, rfl, hfits, hsum⟩
    have hcommands : checkCommands base length count 0 (encodeAll commands) =
        .ok (length, []) := by
      refine checkCommands_ok_iff.2 ⟨commands, hlen, by simp, hfits, by omega, ?_⟩
      exact .inr le_rfl
    refine bind_ok_iff.2 ⟨_, hheader, bind_ok_iff.2 ⟨_, hcommands, ?_⟩⟩
    simp [pure, Except.pure, bind, Except.bind]

/-- What validates decodes, against every base of its length, to what its commands produce. -/
theorem decode_of_commands {base encoded : Bytes} {maximum length count : Nat}
    {commands : List Command}
    (h : validate base encoded maximum = .ok (length, count, encodeAll commands))
    (hlen : commands.length = count) (hfits : ∀ command ∈ commands, command.Fits base.length) :
    decode base encoded maximum = .ok (outputAll base commands) := by
  refine bind_ok_iff.2 ⟨_, h, ?_⟩
  have hexpand := expandCommands_encodeAll hfits [] []
  rw [List.append_nil, List.nil_append, hlen] at hexpand
  exact bind_ok_iff.2 ⟨_, hexpand, rfl⟩

/-- The preflight looks at the base's length alone. -/
theorem validate_congr {base other encoded : Bytes} {maximum length count : Nat} {body : Bytes}
    (hlen : other.length = base.length)
    (h : validate base encoded maximum = .ok (length, count, body)) :
    validate other encoded maximum = .ok (length, count, body) := by
  obtain ⟨hbounds, hheader, commands, hcount, hbody, hfits, hsum⟩ := validate_ok_iff.1 h
  refine validate_ok_iff.2 ⟨by rwa [hlen], ?_, commands, hcount, hbody, by rwa [hlen], hsum⟩
  rw [checkHeader_ok_iff, hlen]
  exact checkHeader_ok_iff.1 hheader

/-! ## The codec -/

/-- **Deltas are lossless and safe.** An encoding that is returned saves what is asked for and
decodes to the target; an encoding that validates decodes, against every base of the length it was
validated for, to the declared length; what does not validate yields no output. -/
theorem delta_codec (base target encoded : Bytes) (maximum : Nat) :
    (∀ delta, encode base target = .ok (some delta) →
      delta.length + minSavings ≤ target.length ∧
      (target.length ≤ maximum → maximum ≤ maxPayload →
        decode base delta maximum = .ok target)) ∧
    (∀ length count body, validate base encoded maximum = .ok (length, count, body) →
      ∀ other : Bytes, other.length = base.length →
        ∃ output, decode other encoded maximum = .ok output ∧ output.length = length) ∧
    (∀ e, validate base encoded maximum = .error e → decode base encoded maximum = .error e) := by
  refine ⟨?_, ?_, ?_⟩
  · intro delta hdelta
    obtain ⟨hbase, htarget, hsaves, commands, hbytes, hfits, hout, hpos, hmax⟩ :=
      encode_some hdelta
    refine ⟨hsaves, fun hsufficient hmaximum => ?_⟩
    have hword : maxPayload < 2 ^ 32 := by decide
    have hcommands : maxCommands < 2 ^ 32 := by decide
    have hsum := length_outputAll hfits
    rw [hout] at hsum
    have hvalid : validate base delta maximum =
        .ok (target.length, commands.length, encodeAll commands) := by
      refine validate_ok_iff.2 ⟨⟨hmaximum, hbase, by omega⟩, ?_, commands, rfl, rfl, hfits,
        hsum.symm⟩
      refine checkHeader_ok_iff.2 ⟨?_, by omega, by omega, by omega, hsufficient, hpos, hmax⟩
      rw [hbytes]
      simp only [List.append_assoc]
    rw [decode_of_commands hvalid rfl hfits, hout]
  · intro length count body hvalid other hlen
    obtain ⟨-, -, commands, hcount, rfl, hfits, hsum⟩ := validate_ok_iff.1 hvalid
    rw [← hlen] at hfits
    refine ⟨outputAll other commands, decode_of_commands (validate_congr hlen hvalid) hcount hfits,
      ?_⟩
    rw [length_outputAll hfits, hsum]
  · intro e herror
    unfold decode
    rw [herror]
    rfl

namespace Sample

/-- A payload that did not change. -/
def unchanged : Bytes := List.replicate 160 7

/-- It is one copy of its predecessor. -/
def unchangedDelta : Bytes :=
  magic ++ beBytes 4 160 ++ beBytes 4 160 ++ beBytes 4 1 ++ (Command.copy 0 160).encode

theorem length_unchanged : unchanged.length = 160 := List.length_replicate

theorem encode_unchanged : encode unchanged unchanged = .ok (some unchangedDelta) := by
  have hsuffix : suffixLength unchanged unchanged = 160 := by decide +kernel
  have hscan : ∀ encoder,
      JournalDelta.scan unchanged unchanged 0 encoder 0 0 = some (encoder, 0) := by
    intro encoder
    rw [JournalDelta.scan, dif_neg (Nat.lt_irrefl 0)]
  have hbody : encodeBody unchanged unchanged 32 = some
      ⟨magic ++ beBytes 4 160 ++ beBytes 4 160 ++ beBytes 4 0 ++ (Command.copy 0 160).encode, 1,
        32⟩ := by
    simp only [encodeBody, hsuffix, length_unchanged, Nat.sub_self, hscan]
    rfl
  simp only [encode, length_unchanged]
  rw [if_neg (by decide), if_neg (by decide), if_neg (by decide),
    show 160 - minSavings = 32 from rfl, hbody]
  rfl

end Sample

theorem delta_codec_unchanged :
    Sample.unchangedDelta.length + minSavings ≤ Sample.unchanged.length ∧
      decode Sample.unchanged Sample.unchangedDelta 160 = .ok Sample.unchanged := by
  have hcodec := delta_codec Sample.unchanged Sample.unchanged [] 160
  have hencode := hcodec.1 Sample.unchangedDelta Sample.encode_unchanged
  exact ⟨hencode.1, hencode.2 Sample.length_unchanged.le (by decide)⟩

end JournalDelta

end Dfmcp
