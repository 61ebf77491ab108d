import Innernet.Library.Panics
import Mathlib

/-! The reply loop of `netlink-request/src/lib.rs`: datagrams received one after another into one
buffer, and the messages parsed out of them. -/
namespace Innernet.Netlink

open Fallible Panics

variable {ι : Type}

inductive NetlinkPayload (ι : Type) where
  | error (code : Option Int)
  | done
  | other (inner : ι)

/-- `NetlinkMessage`, with the length in its header. -/
structure NetlinkMessage (ι : Type) where
  length : Nat
  payload : NetlinkPayload ι

inductive Failure where
  | invalidData (message : String)
  | netlink (code : Int)
  deriving DecidableEq

abbrev Reply (ι : Type) := Outcome Failure (List (NetlinkMessage ι))

/-- How a message ends the request, if it does. -/
def NetlinkMessage.verdict (m : NetlinkMessage ι) (responses : List (NetlinkMessage ι)) :
    Option (Reply ι) :=
  match m.payload with
  | .error (some code) => some (.error (.error (.netlink code)))
  | .error none | .done => some (.ok responses)
  | .other _ => none

/-- Where the inner loop stops: with the reply, or with the responses to go on with. -/
inductive Stop (ι : Type) where
  | reply (reply : Reply ι)
  | more (responses : List (NetlinkMessage ι))

section Loops

variable (deserialize : List UInt8 → Except String (NetlinkMessage ι))

/-- The inner loop over a datagram of `n` bytes at the front of the buffer, with the offsets it parses
at. -/
def parse (buf : List UInt8) (n : Nat) :
    Nat → Nat → List (NetlinkMessage ι) → Stop ι × List Nat
  | 0, _, _ => (.reply (.error .panic), [])
  | rounds + 1, offset, responses =>
    if buf.length < offset then (.reply (.error .panic), [])
    else match deserialize (buf.drop offset) with
      | .error e => (.reply (.error (.error (.invalidData e))), [offset])
      | .ok response =>
        match response.verdict responses with
        | some reply => (.reply reply, [offset])
        | none =>
          let responses := responses ++ [response]
          let next := offset + response.length
          if next = n ∨ response.length = 0 then (.more responses, [offset])
          else
            let (stop, offsets) := parse buf n rounds next responses
            (stop, offset :: offsets)

/-- `recv`: the datagram overwrites the front of the buffer. -/
def fill (buf datagram : List UInt8) : List UInt8 :=
  datagram.take buf.length ++ buf.drop datagram.length

/-- The outer loop, with the offsets parsed at in each datagram; no reply when it waits for another
datagram. -/
def receive : List UInt8 → List (List UInt8) → List (NetlinkMessage ι) →
    Option (Reply ι) × List (List Nat)
  | _, [], _ => (none, [])
  | buf, datagram :: rest, responses =>
    let buf := fill buf datagram
    match parse deserialize buf (min datagram.length buf.length) (buf.length + 1) 0 responses with
    | (.reply reply, offsets) => (some reply, [offsets])
    | (.more responses, offsets) =>
      let (reply, more) := receive buf rest responses
      (reply, offsets :: more)

end Loops

/-- A message as a datagram has it, and the padding behind it. -/
structure Slot (ι : Type) where
  message : NetlinkMessage ι
  bytes : List UInt8
  pad : List UInt8

abbrev Datagram (ι : Type) := List (Slot ι)

namespace Datagram

def bytes (d : Datagram ι) : List UInt8 := d.flatMap fun slot => slot.bytes ++ slot.pad

/-- Where the messages start. -/
def starts (offset : Nat) : Datagram ι → List Nat
  | [] => []
  | slot :: rest => offset :: starts (offset + slot.bytes.length + slot.pad.length) rest

end Datagram

/-- The format of messages: how one is read, and what bytes one has. -/
structure Codec (ι : Type) where
  deserialize : List UInt8 → Except String (NetlinkMessage ι)
  Encodes : List UInt8 → NetlinkMessage ι → Prop

/-- `deserialize` decodes the first message of its input, whose length is in its header. -/
structure Codec.Sound (codec : Codec ι) : Prop where
  decodes : ∀ bytes m rest, codec.Encodes bytes m → codec.deserialize (bytes ++ rest) = .ok m
  length : ∀ bytes m, codec.Encodes bytes m → bytes.length = m.length
  header : ∀ bytes m, codec.Encodes bytes m → 16 ≤ m.length

/-- A message that does not end the request. -/
def NetlinkMessage.Plain (m : NetlinkMessage ι) : Prop := ∃ inner, m.payload = .other inner

theorem verdict_plain {m : NetlinkMessage ι} (plain : m.Plain) (responses : List (NetlinkMessage ι)) :
    m.verdict responses = none := by
  obtain ⟨inner, same⟩ := plain
  rw [NetlinkMessage.verdict, same]

theorem verdict_final {m : NetlinkMessage ι} (final : ¬ m.Plain)
    (responses : List (NetlinkMessage ι)) :
    ∃ reply, m.verdict responses = some reply ∧ reply ≠ .error .panic := by
  unfold NetlinkMessage.verdict
  split
  · exact ⟨_, rfl, by simp⟩
  · exact ⟨_, rfl, by simp⟩
  · exact ⟨_, rfl, by simp⟩
  · rename_i inner same
    exact absurd ⟨inner, same⟩ final

theorem bytes_cons {slot : Slot ι} {d : Datagram ι} :
    Datagram.bytes (slot :: d) = slot.bytes ++ (slot.pad ++ Datagram.bytes d) := by
  simp [Datagram.bytes]

theorem bytes_append {d d' : Datagram ι} :
    Datagram.bytes (d ++ d') = Datagram.bytes d ++ Datagram.bytes d' := by
  simp [Datagram.bytes]

section Parsing

variable {codec : Codec ι} (sound : codec.Sound) {buf tail : List UInt8} {n rounds offset : Nat}
  {responses : List (NetlinkMessage ι)} {slot : Slot ι} {plain after : Datagram ι}

include sound

theorem deserialize_slot (encoded : codec.Encodes slot.bytes slot.message)
    (here : buf.drop offset = slot.bytes ++ tail) :
    ¬ buf.length < offset ∧ codec.deserialize (buf.drop offset) = .ok slot.message := by
  have length := congrArg List.length here
  have some_ := sound.header _ _ encoded
  rw [List.length_drop, List.length_append, sound.length _ _ encoded] at length
  exact ⟨by omega, here ▸ sound.decodes _ _ _ encoded⟩

theorem parse_plain (encoded : codec.Encodes slot.bytes slot.message) (plain : slot.message.Plain)
    (here : buf.drop offset = slot.bytes ++ tail) :
    parse codec.deserialize buf n (rounds + 1) offset responses =
      if offset + slot.bytes.length = n then (.more (responses ++ [slot.message]), [offset])
      else
        let p := parse codec.deserialize buf n rounds (offset + slot.bytes.length)
          (responses ++ [slot.message])
        (p.1, offset :: p.2) := by
  obtain ⟨inside, decoded⟩ := deserialize_slot sound encoded here
  have some_ := sound.header _ _ encoded
  have length := sound.length _ _ encoded
  have positive : slot.message.length ≠ 0 := by omega
  rw [parse, if_neg inside, decoded]
  simp only [verdict_plain plain, positive, or_false, length]

theorem parse_final {reply : Reply ι} (encoded : codec.Encodes slot.bytes slot.message)
    (final : slot.message.verdict responses = some reply)
    (here : buf.drop offset = slot.bytes ++ tail) :
    parse codec.deserialize buf n (rounds + 1) offset responses = (.reply reply, [offset]) := by
  obtain ⟨inside, decoded⟩ := deserialize_slot sound encoded here
  rw [parse, if_neg inside, decoded]
  simp only [final]

theorem slot_positive (encoded : codec.Encodes slot.bytes slot.message) : 0 < slot.bytes.length := by
  have some_ := sound.header _ _ encoded
  rw [sound.length _ _ encoded]
  omega

omit sound in
theorem drop_slot (here : buf.drop offset = slot.bytes ++ (slot.pad ++ tail)) (bare : slot.pad = []) :
    buf.drop (offset + slot.bytes.length) = tail := by
  rw [← List.drop_drop, here, bare, List.nil_append, List.drop_left]

/-- Messages without padding are parsed one after another, up to what follows them. -/
theorem parse_append (encoded : ∀ slot ∈ plain, codec.Encodes slot.bytes slot.message)
    (encoded' : ∀ slot ∈ after, codec.Encodes slot.bytes slot.message) (some_ : after ≠ [])
    (kind : ∀ slot ∈ plain, slot.message.Plain) (bare : ∀ slot ∈ plain, slot.pad = [])
    (here : buf.drop offset = Datagram.bytes (plain ++ after) ++ tail)
    (size : n = offset + (Datagram.bytes (plain ++ after)).length) :
    ∃ offset', buf.drop offset' = Datagram.bytes after ++ tail ∧
      n = offset' + (Datagram.bytes after).length ∧
      parse codec.deserialize buf n (plain.length + rounds) offset responses =
        ((parse codec.deserialize buf n rounds offset' (responses ++ plain.map Slot.message)).1,
          Datagram.starts offset plain ++
            (parse codec.deserialize buf n rounds offset' (responses ++ plain.map Slot.message)).2) ∧
      Datagram.starts offset (plain ++ after) =
        Datagram.starts offset plain ++ Datagram.starts offset' after := by
  induction plain generalizing offset responses with
  | nil =>
    refine ⟨offset, here, size, ?_, rfl⟩
    simp [Datagram.starts]
  | cons slot plain ih =>
    rw [List.forall_mem_cons] at encoded kind bare
    rw [List.cons_append, bytes_cons, List.append_assoc, List.append_assoc] at here
    have next := drop_slot here bare.1
    have more : 0 < (Datagram.bytes (plain ++ after)).length := by
      cases after with
      | nil => exact absurd rfl some_
      | cons first after =>
        have positive := slot_positive sound (encoded' first List.mem_cons_self)
        rw [bytes_append, bytes_cons, List.length_append, List.length_append]
        omega
    rw [List.cons_append, bytes_cons, bare.1, List.nil_append, List.length_append,
      ← Nat.add_assoc] at size
    obtain ⟨offset', there, size', parsed, starts⟩ :=
      @ih _ (responses ++ [slot.message]) encoded.2 kind.2 bare.2 next size
    refine ⟨offset', there, size', ?_, ?_⟩
    · have rounds' : (slot :: plain).length + rounds = (plain.length + rounds) + 1 := by
        rw [List.length_cons]
        omega
      rw [rounds', parse_plain sound encoded.1 kind.1 here, if_neg (by omega)]
      simp only [parsed, List.map_cons, List.append_assoc, List.cons_append, List.nil_append,
        Datagram.starts, bare.1, List.length_nil, Nat.add_zero]
    · simp only [List.cons_append, Datagram.starts, bare.1, List.length_nil, Nat.add_zero, starts]

/-- A datagram of messages without padding is parsed to its end. -/
theorem parse_datagram (encoded : ∀ slot ∈ plain, codec.Encodes slot.bytes slot.message)
    (some_ : plain ≠ []) (kind : ∀ slot ∈ plain, slot.message.Plain)
    (bare : ∀ slot ∈ plain, slot.pad = []) (enough : plain.length ≤ rounds)
    (here : buf.drop offset = Datagram.bytes plain ++ tail)
    (size : n = offset + (Datagram.bytes plain).length) :
    parse codec.deserialize buf n rounds offset responses =
      (.more (responses ++ plain.map Slot.message), Datagram.starts offset plain) := by
  obtain ⟨init, last, rfl⟩ := (List.eq_nil_or_concat' plain).resolve_left some_
  rw [List.forall_mem_append, List.forall_mem_singleton] at encoded kind bare
  rw [List.length_append, List.length_singleton] at enough
  obtain ⟨k, rfl⟩ := Nat.exists_eq_add_of_le enough
  obtain ⟨offset', there, size', parsed, starts⟩ := parse_append sound
    encoded.1
    (List.forall_mem_singleton.mpr encoded.2) (List.cons_ne_nil _ _) kind.1 bare.1 here size
  have alone : Datagram.bytes [last] = last.bytes := by
    simp [Datagram.bytes, bare.2]
  rw [alone] at there size'
  have split : init.length + 1 + k = init.length + (k + 1) := by omega
  rw [split, parsed, starts, parse_plain sound encoded.2 kind.2 there, if_pos size'.symm]
  simp [Datagram.starts]

omit sound in
/-- The rounds do not run out: more of them than bytes that are left change nothing. -/
theorem parse_rounds (enough : buf.length < rounds + offset) :
    parse codec.deserialize buf n (rounds + 1) offset responses =
      parse codec.deserialize buf n rounds offset responses := by
  induction rounds generalizing offset responses with
  | zero =>
    exact if_pos (by omega)
  | succ rounds ih =>
    rw [parse, parse]
    split
    · rfl
    · split
      · rfl
      · rename_i response _
        split
        · rfl
        · dsimp only
          by_cases stop : offset + response.length = n ∨ response.length = 0
          · rw [if_pos stop, if_pos stop]
          · rw [if_neg stop, if_neg stop, ih (by omega)]

omit sound in
/-- The first offset is the one asked for, and without an offset there was a panic. -/
theorem parse_offsets : (∃ offsets, (parse codec.deserialize buf n rounds offset responses).2 =
    offset :: offsets) ∨ parse codec.deserialize buf n rounds offset responses =
      (.reply (.error .panic), []) := by
  cases rounds with
  | zero => exact .inr rfl
  | succ rounds =>
    unfold parse
    split
    · exact .inr rfl
    · split
      · exact .inl ⟨_, rfl⟩
      · split
        · exact .inl ⟨_, rfl⟩
        · dsimp only
          split
          · exact .inl ⟨_, rfl⟩
          · exact .inl ⟨_, rfl⟩

/-- When messages are parsed where they start, there is no padding between them. -/
theorem pad_nil (encoded : ∀ slot ∈ plain, codec.Encodes slot.bytes slot.message)
    (kind : ∀ slot ∈ plain, slot.message.Plain)
    (here : buf.drop offset = Datagram.bytes (plain ++ after) ++ tail)
    (size : n = offset + (Datagram.bytes (plain ++ after)).length)
    (offsets : (parse codec.deserialize buf n rounds offset responses).2 =
      Datagram.starts offset (plain ++ after))
    (calm : (parse codec.deserialize buf n rounds offset responses).1 ≠ .reply (.error .panic)) :
    ∀ slot ∈ plain, slot.pad = [] := by
  induction plain generalizing offset responses rounds with
  | nil => simp
  | cons slot plain ih =>
    rw [List.forall_mem_cons] at encoded kind ⊢
    rw [List.cons_append, bytes_cons, List.append_assoc, List.append_assoc] at here
    rw [List.cons_append, bytes_cons, List.length_append, List.length_append] at size
    cases rounds with
    | zero => exact absurd rfl calm
    | succ rounds =>
      rw [parse_plain sound encoded.1 kind.1 here, List.cons_append, Datagram.starts] at offsets
      rw [parse_plain sound encoded.1 kind.1 here] at calm
      split at offsets
      · rename_i ended
        have none_ : plain ++ after = [] := by
          cases left : plain ++ after with
          | nil => rfl
          | cons first rest =>
            rw [left] at offsets
            simp [Datagram.starts] at offsets
        rw [(List.append_eq_nil_iff.mp none_).1]
        exact ⟨List.eq_nil_of_length_eq_zero (by omega), by simp⟩
      · rename_i going
        rw [if_neg going] at calm
        have offsets := (List.cons.inj offsets).2
        rcases parse_offsets (n := n)
         
          with ⟨more, same⟩ | panicked
        · have bare : slot.pad = [] := by
            rw [same] at offsets
            cases left : plain ++ after with
            | nil =>
              rw [left] at offsets
              cases offsets
            | cons first rest =>
              rw [left, Datagram.starts] at offsets
              have head := (List.cons.inj offsets).1
              exact List.eq_nil_of_length_eq_zero (by omega)
          rw [bare, List.length_nil, Nat.add_zero] at offsets
          rw [bare, List.length_nil, Nat.zero_add, ← Nat.add_assoc] at size
          exact ⟨bare, ih encoded.2 kind.2 (drop_slot here bare) size offsets calm⟩
        · dsimp only at calm
          rw [panicked] at calm
          exact absurd rfl calm

end Parsing

/-- The datagrams of a reply: messages up to the last one, which ends the request. -/
structure Complete (codec : Codec ι) (size : Nat) (before : List (Datagram ι)) (final : Datagram ι)
    (last : Slot ι) : Prop where
  fits : ∀ d ∈ before ++ [final ++ [last]], (Datagram.bytes d).length ≤ size
  encoded : ∀ d ∈ before ++ [final ++ [last]], ∀ slot ∈ d, codec.Encodes slot.bytes slot.message
  aligned : ∀ d ∈ before ++ [final ++ [last]], ∀ offset ∈ Datagram.starts 0 d, 4 ∣ offset
  plain : ∀ d ∈ before ++ [final], ∀ slot ∈ d, slot.message.Plain
  ends : ¬ last.message.Plain

/-- The messages before the last one, in their order. -/
def messages (before : List (Datagram ι)) (final : Datagram ι) : List (NetlinkMessage ι) :=
  (before.flatten ++ final).map Slot.message

/-- Each message is parsed once, where it starts, and the reply is that of the last one to those
before it. -/
def Read (codec : Codec ι) (buf : List UInt8) (before : List (Datagram ι)) (final : Datagram ι)
    (last : Slot ι) (responses : List (NetlinkMessage ι)) : Prop :=
  receive codec.deserialize buf ((before ++ [final ++ [last]]).map Datagram.bytes) responses =
    (last.message.verdict (responses ++ messages before final),
      (before ++ [final ++ [last]]).map (Datagram.starts 0))

/-- No datagram is empty, and no padding is received behind a message before the last one. -/
structure Tight (before : List (Datagram ι)) (final : Datagram ι) : Prop where
  some_ : ∀ d ∈ before, d ≠ []
  bare : ∀ d ∈ before ++ [final], ∀ slot ∈ d, slot.pad = []

section Replies

variable {codec : Codec ι} (sound : codec.Sound) {buf : List UInt8} {before : List (Datagram ι)}
  {d final : Datagram ι} {last : Slot ι} {responses : List (NetlinkMessage ι)} {n rounds : Nat}

theorem fill_eq (fits : (Datagram.bytes d).length ≤ buf.length) :
    ∃ tail, fill buf (Datagram.bytes d) = Datagram.bytes d ++ tail ∧
      (fill buf (Datagram.bytes d)).length = buf.length ∧
      min (Datagram.bytes d).length (fill buf (Datagram.bytes d)).length =
        0 + (Datagram.bytes d).length := by
  have same : fill buf (Datagram.bytes d) = Datagram.bytes d ++ buf.drop (Datagram.bytes d).length := by
    rw [fill, List.take_of_length_le fits]
  have length : (fill buf (Datagram.bytes d)).length = buf.length := by
    rw [same, List.length_append, List.length_drop]
    omega
  exact ⟨_, same, length, by omega⟩

include sound

/-- There are as many rounds as there can be messages. -/
theorem length_le (encoded : ∀ slot ∈ d, codec.Encodes slot.bytes slot.message) :
    d.length ≤ (Datagram.bytes d).length := by
  induction d with
  | nil => exact le_rfl
  | cons slot d ih =>
    rw [List.forall_mem_cons] at encoded
    have positive := slot_positive sound encoded.1
    have rest := ih encoded.2
    rw [bytes_cons, List.length_cons, List.length_append, List.length_append]
    omega

theorem receive_final (complete : Complete codec buf.length [] final last) :
    Read codec buf [] final last responses ↔ ∀ slot ∈ final, slot.pad = [] := by
  have fits := complete.fits _ (List.mem_singleton_self _)
  have encoded := complete.encoded _ (List.mem_singleton_self _)
  have kind := complete.plain _ (List.mem_singleton_self _)
  rw [List.forall_mem_append, List.forall_mem_singleton] at encoded
  obtain ⟨tail, same, length, size⟩ := fill_eq fits
  have here : (fill buf (Datagram.bytes (final ++ [last]))).drop 0 =
      Datagram.bytes (final ++ [last]) ++ tail := same
  have rounds := length_le sound (List.forall_mem_append.mpr
    ⟨encoded.1, List.forall_mem_singleton.mpr encoded.2⟩)
  obtain ⟨reply, verdict, calm⟩ := verdict_final complete.ends
    (responses ++ final.map Slot.message)
  have expected : last.message.verdict (responses ++ messages [] final) = some reply := verdict
  unfold Read
  rw [expected]
  simp only [List.nil_append, List.map_cons, List.map_nil, receive]
  generalize parsed : parse codec.deserialize (fill buf (Datagram.bytes (final ++ [last])))
    (min (Datagram.bytes (final ++ [last])).length
      (fill buf (Datagram.bytes (final ++ [last]))).length)
    ((fill buf (Datagram.bytes (final ++ [last]))).length + 1) 0 responses = p
  obtain ⟨stop, offsets⟩ := p
  constructor
  · intro read
    cases stop with
    | more responses' => cases congrArg Prod.fst read
    | reply reply' =>
      cases congrArg Prod.fst read
      have starts := List.singleton_inj.mp (congrArg Prod.snd read)
      refine pad_nil sound encoded.1 kind here size ((congrArg Prod.snd parsed).trans starts) ?_
      rw [parsed]
      intro panicked
      cases panicked
      exact calm rfl
  · intro bare
    have enough : final.length + 1 ≤ (fill buf (Datagram.bytes (final ++ [last]))).length + 1 := by
      rw [List.length_append, List.length_singleton] at rounds
      omega
    obtain ⟨k, split⟩ := Nat.exists_eq_add_of_le enough
    have split : (fill buf (Datagram.bytes (final ++ [last]))).length + 1 =
        final.length + (k + 1) := by omega
    obtain ⟨offset', there, -, parsed', starts⟩ := parse_append sound
      encoded.1 (List.forall_mem_singleton.mpr encoded.2)
      (List.cons_ne_nil _ _) kind bare here size
    have there : (fill buf (Datagram.bytes (final ++ [last]))).drop offset' =
        last.bytes ++ (last.pad ++ tail) := by
      simpa [Datagram.bytes] using there
    rw [split, parsed', parse_final sound encoded.2 verdict there] at parsed
    cases parsed
    rw [starts]
    rfl

theorem receive_datagram (complete : Complete codec buf.length (d :: before) final last) :
    Read codec buf (d :: before) final last responses ↔
      (d ≠ [] ∧ ∀ slot ∈ d, slot.pad = []) ∧
        Read codec (fill buf (Datagram.bytes d)) before final last
          (responses ++ d.map Slot.message) := by
  have fits := complete.fits _ List.mem_cons_self
  have encoded := complete.encoded _ List.mem_cons_self
  have kind := complete.plain _ List.mem_cons_self
  obtain ⟨tail, same, length, size⟩ := fill_eq fits
  have here : (fill buf (Datagram.bytes d)).drop 0 = Datagram.bytes d ++ tail := same
  have rounds := length_le sound encoded
  unfold Read
  simp only [List.cons_append, List.map_cons, receive]
  generalize parsed : parse codec.deserialize (fill buf (Datagram.bytes d))
    (min (Datagram.bytes d).length (fill buf (Datagram.bytes d)).length)
    ((fill buf (Datagram.bytes d)).length + 1) 0 responses = p
  have whole (bare : d ≠ [] ∧ ∀ slot ∈ d, slot.pad = []) :
      p = (.more (responses ++ d.map Slot.message), Datagram.starts 0 d) :=
    parsed.symm.trans (parse_datagram sound encoded bare.1 kind bare.2 (by omega) here size)
  have messages_cons : messages (d :: before) final = d.map Slot.message ++ messages before final := by
    simp [messages]
  rw [messages_cons, ← List.append_assoc]
  constructor
  · intro read
    have bare : d ≠ [] ∧ ∀ slot ∈ d, slot.pad = [] := by
      obtain ⟨stop, offsets⟩ := p
      cases stop with
      | reply reply =>
        have short := (List.cons.inj (congrArg Prod.snd read)).2
        simp at short
      | more responses' =>
        have starts : offsets = Datagram.starts 0 d := (List.cons.inj (congrArg Prod.snd read)).1
        constructor
        · rintro rfl
          rcases parse_offsets
            (n := min (Datagram.bytes ([] : Datagram ι)).length
              (fill buf (Datagram.bytes ([] : Datagram ι))).length)
           
            with ⟨more, first⟩ | panicked
          · rw [parsed, starts] at first
            cases first
          · cases parsed.symm.trans panicked
        · have here' : (fill buf (Datagram.bytes d)).drop 0 =
              Datagram.bytes (d ++ []) ++ tail := by rw [List.append_nil, here]
          refine pad_nil sound encoded kind here' (by rw [List.append_nil, size])
            ((congrArg Prod.snd parsed).trans (by rw [List.append_nil]; exact starts)) ?_
          rw [parsed]
          intro panicked
          cases panicked
    refine ⟨bare, ?_⟩
    rw [whole bare] at read
    have reply := congrArg Prod.fst read
    have offsets := (List.cons.inj (congrArg Prod.snd read)).2
    exact Prod.ext reply offsets
  · rintro ⟨bare, read⟩
    rw [whole bare]
    dsimp only
    rw [read]

/-- The replies are read completely exactly when no datagram is empty and no padding is received
behind a message before the last one. -/
theorem receive_read_iff (complete : Complete codec buf.length before final last) :
    Read codec buf before final last responses ↔ Tight before final := by
  induction before generalizing buf responses with
  | nil =>
    rw [receive_final sound complete]
    constructor
    · intro bare
      exact ⟨by simp, by simpa using bare⟩
    · intro tight
      simpa using tight.bare
  | cons d before ih =>
    have fits := complete.fits d List.mem_cons_self
    obtain ⟨tail, -, length, -⟩ := fill_eq fits
    have rest : Complete codec (fill buf (Datagram.bytes d)).length before final last := by
      rw [length]
      exact ⟨fun d' member => complete.fits d' (List.mem_cons_of_mem _ member),
        fun d' member => complete.encoded d' (List.mem_cons_of_mem _ member),
        fun d' member => complete.aligned d' (List.mem_cons_of_mem _ member),
        fun d' member => complete.plain d' (List.mem_cons_of_mem _ member), complete.ends⟩
    rw [receive_datagram sound complete, ih rest]
    constructor
    · rintro ⟨⟨some_, bare⟩, tight⟩
      refine ⟨List.forall_mem_cons.mpr ⟨some_, tight.some_⟩, ?_⟩
      rw [List.cons_append, List.forall_mem_cons]
      exact ⟨bare, tight.bare⟩
    · rintro ⟨some_, bare⟩
      rw [List.forall_mem_cons] at some_
      rw [List.cons_append, List.forall_mem_cons] at bare
      exact ⟨⟨some_.1, bare.1⟩, some_.2, bare.2⟩

end Replies

section Format

def u32 (bytes : List UInt8) (p : Nat) : Nat :=
  (bytes.getD p 0).toNat + (bytes.getD (p + 1) 0).toNat * 2 ^ 8 +
    (bytes.getD (p + 2) 0).toNat * 2 ^ 16 + (bytes.getD (p + 3) 0).toNat * 2 ^ 24

/-- A message by its type: an error or an acknowledgement, the end, or what the type stands for. -/
def decode (bytes : List UInt8) : NetlinkMessage Nat where
  length := u32 bytes 0
  payload :=
    let type := u32 bytes 4 % 2 ^ 16
    if type = 2 then
      .error (if u32 bytes 16 = 0 then none else some (BitVec.ofNat 32 (u32 bytes 16)).toInt)
    else if type = 3 then .done
    else .other type

/-- The header of `linux/netlink.h`, in front of any body. -/
def header : Codec Nat where
  deserialize bytes :=
    if bytes.length < 16 ∨ bytes.length < u32 bytes 0 ∨ u32 bytes 0 < 16 then
      .error "invalid netlink buffer"
    else .ok (decode (bytes.take (u32 bytes 0)))
  Encodes bytes m := 16 ≤ bytes.length ∧ u32 bytes 0 = bytes.length ∧ m = decode bytes

theorem header_sound : header.Sound where
  decodes := by
    rintro bytes m rest ⟨long, length, rfl⟩
    have byte (i : Nat) (inside : i < bytes.length) :
        (bytes ++ rest).getD i 0 = bytes.getD i 0 := by
      simp [List.getD_eq_getElem?_getD, List.getElem?_append, inside]
    have same : u32 (bytes ++ rest) 0 = bytes.length := by
      rw [← length, u32, byte _ (by omega), byte _ (by omega), byte _ (by omega),
        byte _ (by omega), u32]
    simp only [header, same, List.length_append, List.take_left]
    rw [if_neg (by omega)]
  length := by
    rintro bytes m ⟨-, length, rfl⟩
    exact length.symm
  header := by
    rintro bytes m ⟨long, length, rfl⟩
    exact long.trans_eq length.symm

/-- A message of this length and type, with a body of zeros. -/
def zeros (length type : Nat) (pad : List UInt8) : Slot Nat :=
  let bytes := [UInt8.ofNat length, 0, 0, 0, UInt8.ofNat type, 0] ++ List.replicate (length - 6) 0
  ⟨decode bytes, bytes, pad⟩

theorem zeros_encoded {length type : Nat} {pad : List UInt8} (long : 16 ≤ length)
    (short : length < 256) :
    header.Encodes (zeros length type pad).bytes (zeros length type pad).message := by
  refine ⟨?_, ?_, rfl⟩
  · simp [zeros]
    omega
  · simp [zeros, u32]
    omega

theorem zeros_plain {length : Nat} {pad : List UInt8} : (zeros length 24 pad).message.Plain := by
  simp [NetlinkMessage.Plain, zeros, decode, u32]

theorem zeros_final : ¬ (zeros 20 3 []).message.Plain := by
  simp [NetlinkMessage.Plain, zeros, decode, u32]

/-- A message of 20 bytes in a datagram of its own, and the end in the next. -/
theorem two_datagrams_read : ∃ buf : List UInt8, buf.length = 8192 ∧
    Complete header buf.length [[zeros 20 24 []]] [] (zeros 20 3 []) ∧
    Read header buf [[zeros 20 24 []]] [] (zeros 20 3 []) [] := by
  have complete : Complete header (List.replicate 8192 (0 : UInt8)).length
      [[zeros 20 24 []]] [] (zeros 20 3 []) := by
    rw [List.length_replicate]
    exact ⟨by decide, by simp [zeros_encoded], by decide, by simp [zeros_plain], zeros_final⟩
  exact ⟨_, List.length_replicate, complete, (receive_read_iff header_sound complete).mpr
    ⟨by simp, by simp [zeros]⟩⟩

/-- A message of 18 bytes with its padding, and the end behind it, are not read. -/
theorem not_receive_read : ¬ ∀ (codec : Codec Nat) (buf : List UInt8) (before : List (Datagram Nat))
    (final : Datagram Nat) (last : Slot Nat), codec.Sound →
    Complete codec buf.length before final last → Read codec buf before final last [] := by
  intro always
  have complete : Complete header (List.replicate 8192 (0 : UInt8)).length
      [] [zeros 18 24 [0, 0]] (zeros 20 3 []) := by
    rw [List.length_replicate]
    exact ⟨by decide, by simp [zeros_encoded], by decide, by simp [zeros_plain], zeros_final⟩
  have bare := (receive_final header_sound complete).mp
    (always header _ _ _ _ header_sound complete)
  have unpadded := bare _ List.mem_cons_self
  cases unpadded

end Format

end Innernet.Netlink
