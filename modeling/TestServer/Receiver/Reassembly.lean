import TestServer.Receiver.ReadString

/-! # Packets cut anywhere

    TCP hands a stream of packets over in pieces of its own. What a receiver
    has to do is described without `read_string`: it holds some bytes it could
    not use yet, reads more, uses the packets that are whole by now and holds
    the rest.

    * `Held`, `Keeps`: that receiver between two reads, for reads that leave
      less than a header over, and leave what `strncpy` puts at the front of
      the buffer.
    * `CleanCut`, `Overcut`, `Miscopied`: the ways a cut stream can go on.
    * `Tracks`: `read_string` does what that receiver does (`Tracks.run`).
    * `reassembles_cut`: `read_string` is right on every clean cut and leaves
      its buffer when a packet is cut behind its header.
-/

open CMemory Loop

namespace Receiver

/-! ### A receiver between two reads -/

/-- The bytes a receiver holds between two reads, and the socket. -/
structure Held where
  left : List UInt8
  sock : Socket

/-- A connection nothing was read from. -/
def Held.start (stream : List UInt8) (cuts : List Nat) : Held where
  left := []
  sock := .start stream cuts

/-- How many bytes there is room for. -/
def Held.room (h : Held) : Nat := bufferLength - h.left.length

/-- The bytes held after the next read. -/
def Held.block (h : Held) : List UInt8 := h.left ++ h.sock.chunk h.room

/-- The next read leaves `h'.left` over: less than a header, and what `strncpy` makes of the first
    bytes of the block. -/
structure Keeps (h h' : Held) : Prop where
  more : h.sock.stream ≠ []
  block : ∃ ps, h.block = Rpc.code.encodeAll ps ++ h'.left
  left_ne_nil : h'.left ≠ []
  short : h'.left.length < 8
  copied : strncpyFill h'.left.length h.block = h'.left
  sock : h'.sock = h.sock.rest h.room

/-- The next read leaves nothing over, or finds the end of the stream. -/
def Held.Finishes (h : Held) : Prop :=
  (h.sock.stream = [] ∧ h.left = []) ∨
    (h.sock.stream ≠ [] ∧ ∃ ps, h.block = Rpc.code.encodeAll ps)

/-- The next read ends inside a packet, behind its header. -/
def Held.CutsPacket (h : Held) : Prop :=
  h.sock.stream ≠ [] ∧ ∃ ps p left, h.block = Rpc.code.encodeAll ps ++ left ∧
    left <+: Rpc.code.encode p ∧ 8 ≤ left.length ∧ left.length < p.size

/-- The next read ends inside a header, behind its magic number, and `strncpy` puts other bytes at
    the front of the buffer than those that are left. -/
def Held.Garbles (h : Held) : Prop :=
  h.sock.stream ≠ [] ∧ ∃ ps left, h.block = Rpc.code.encodeAll ps ++ left ∧
    5 ≤ left.length ∧ left.length < 8 ∧ strncpyFill left.length h.block ≠ left

/-- Reads that keep what they leave, up to a read that `P`. -/
def Reaches (P : Held → Prop) (stream : List UInt8) (cuts : List Nat) : Prop :=
  ∃ h, Relation.ReflTransGen Keeps (.start stream cuts) h ∧ P h

/-- Every read, up to one that leaves nothing over, keeps what it leaves. -/
def CleanCut : List UInt8 → List Nat → Prop := Reaches Held.Finishes

/-- The first read that does not keep what it leaves cuts a packet behind its header. -/
def Overcut : List UInt8 → List Nat → Prop := Reaches Held.CutsPacket

/-- The first read that does not keep what it leaves cuts a header. -/
def Miscopied : List UInt8 → List Nat → Prop := Reaches Held.Garbles

/-- `read_string` returns without error, and the messages it delivered are exactly those whose
    packets make up the bytes it took from the socket. -/
def Reassembles (ss fs : List (List UInt8)) (cuts : List Nat) (mem : Mem) : Prop :=
  ∃ r ret, ReadStringReturns Socket.readn mem (.start fs.flatten cuts) r ∧
    r.ret = some ret ∧ 0 ≤ ret ∧
    ∃ k, r.sock.taken = (fs.take k).flatten ∧ r.delivered.map Delivery.msg = ss.take k

/-! ### Reads -/

variable {h h' : Held}

theorem Held.block_length_le (hshort : h.left.length < 8) : h.block.length ≤ bufferLength := by
  have hle := h.sock.chunk_length_le h.room
  simp only [block, List.length_append, room, bufferLength] at hle ⊢
  omega

theorem Held.chunk_length_pos (hmore : h.sock.stream ≠ []) (hshort : h.left.length < 8) :
    0 < (h.sock.chunk h.room).length := by
  apply Socket.chunk_length_pos hmore
  rw [room, bufferLength]
  omega

/-- What is held, and then the stream, are the next block, and then the stream. -/
theorem Held.block_append (h : Held) :
    h.block ++ (h.sock.rest h.room).stream = h.left ++ h.sock.stream := by
  rw [block, List.append_assoc, Socket.chunk_append]

/-- The bytes read and the bytes to read are the stream, however far the receiver got. -/
theorem Keeps.stream_eq (hk : Relation.ReflTransGen Keeps h h') :
    h'.sock.taken ++ h'.sock.stream = h.sock.taken ++ h.sock.stream := by
  induction hk with
  | refl => rfl
  | tail _ hlast ih => rw [hlast.sock, Socket.taken_append, ih]

/-- A beginning of a packet that is kept in place begins with the same magic number. -/
theorem strncpyFill_magic {ps : List Rpc.Payload} {p : Rpc.Payload} {left : List UInt8}
    (hleft : left <+: Rpc.code.encode p) (hlen : left.length ≤ 4) :
    strncpyFill left.length (Rpc.code.encodeAll ps ++ left) = left := by
  -- the magic number holds no NUL, so `strncpy` copies all the bytes asked for
  let magic := toLE 4 Rpc.kMagic.toNat
  have hnul : 0 ∉ magic := by decide
  have hmagic : magic.length = 4 := toLE_length 4 _
  have htake : ∀ q : Rpc.Payload, ∀ rest, (Rpc.code.encode q ++ rest).take left.length
      = magic.take left.length := by
    intro q rest
    have hframe : Rpc.code.encode q ++ rest = magic ++ _ := q.frame_append rest
    rw [hframe, List.take_append_of_le_length (by omega)]
  have hself : left = magic.take left.length := by
    obtain ⟨more, hmore⟩ := hleft
    have := htake p []
    rwa [List.append_nil, ← hmore, List.take_left] at this
  have hfirst : (Rpc.code.encodeAll ps ++ left).take left.length = left := by
    cases ps with
    | nil => simp
    | cons q ps =>
      rw [PrefixCode.encodeAll_cons, List.append_assoc, htake]
      exact hself.symm
  rw [strncpyFill_of_notMem (by simp), hfirst]
  rw [hfirst, hself]
  exact fun hmem => hnul (List.mem_of_mem_take hmem)

/-- Where the packets of the stream end, and where the reads end: every cut is of one of three
    kinds. -/
theorem Held.cut_cases (n : Nat) (hn : h.sock.stream.length = n) (hshort : h.left.length < 8)
    {todo : List Rpc.Payload} (htodo : h.left ++ h.sock.stream = Rpc.code.encodeAll todo) :
    ∃ h', Relation.ReflTransGen Keeps h h' ∧ (h'.Finishes ∨ h'.CutsPacket ∨ h'.Garbles) := by
  induction n using Nat.strongRecOn generalizing h todo with
  | _ n ih =>
    by_cases hmore : h.sock.stream = []
    · -- the stream has ended, and less than a header is no packet
      refine ⟨h, .refl, Or.inl (Or.inl ⟨hmore, ?_⟩)⟩
      rw [hmore, List.append_nil] at htodo
      cases todo with
      | nil => exact htodo
      | cons p todo =>
        have hlen : (Rpc.code.encode p).length = p.size := p.frame_length
        have hsize := p.size_ge
        rw [htodo, PrefixCode.encodeAll_cons, List.length_append, hlen] at hshort
        rw [Rpc.sizeofMessage] at hsize
        omega
    · rw [← h.block_append] at htodo
      obtain ⟨done, todo', left, rfl, hs, hleft⟩ :=
        PrefixCode.splits_of_isPrefix ⟨_, htodo⟩
      rcases hleft with rfl | ⟨p, rest, rfl, hpre, hlt⟩
      · exact ⟨h, .refl, Or.inl (Or.inr ⟨hmore, done, by simpa using hs.eq⟩)⟩
      · -- the block ends inside the packet of `p`
        have hlen : (Rpc.code.encode p).length = p.size := p.frame_length
        by_cases h8 : 8 ≤ left.length
        · exact ⟨h, .refl, Or.inr (Or.inl ⟨hmore, done, p, left, hs.eq, hpre, h8, hlen ▸ hlt⟩)⟩
        · by_cases hnil : left = []
          · exact ⟨h, .refl, Or.inl (Or.inr ⟨hmore, done, by simpa [hnil] using hs.eq⟩)⟩
          · by_cases hcopy : strncpyFill left.length h.block = left
            · -- the bytes left over are kept, and the next read goes on from them
              have hkeeps : Keeps h { left, sock := h.sock.rest h.room } :=
                ⟨hmore, ⟨done, hs.eq⟩, hnil, Nat.lt_of_not_le h8, hcopy, rfl⟩
              have hpos := Held.chunk_length_pos hmore hshort
              have hless : (h.sock.rest h.room).stream.length < n := by
                have := congrArg List.length (h.sock.chunk_append h.room)
                rw [List.length_append] at this
                omega
              rw [hs.eq, PrefixCode.encodeAll_append, List.append_assoc] at htodo
              obtain ⟨h', hreach, hkind⟩ := ih _ hless (h := { left, sock := h.sock.rest h.room })
                rfl (Nat.lt_of_not_le h8) (List.append_cancel_left htodo)
              exact ⟨h', .head hkeeps hreach, hkind⟩
            · refine ⟨h, .refl, Or.inr (Or.inr ⟨hmore, done, left, hs.eq, ?_, by omega, hcopy⟩)⟩
              -- up to four bytes would have been kept
              by_contra hlow
              rw [hs.eq] at hcopy
              exact hcopy (strncpyFill_magic hpre (by omega))

/-! ### `read_string` between two reads -/

/-- The head of a round of `read_string`, seen as a receiver between two reads. -/
structure Tracks (h : Held) (s : ReadState Socket) : Prop where
  holds : s.Holds h.left
  short : h.left.length < 8
  sock : s.sock = h.sock
  texts : ∃ done, h.sock.taken = Rpc.code.encodeAll done ++ h.left ∧
    s.delivered.map Delivery.msg = done.map Rpc.Payload.text
  total_nonneg : 0 ≤ s.total_length
  total_le : s.total_length ≤ 7 * h.sock.taken.length

variable {s : ReadState Socket}

theorem Tracks.start {mem : Mem} (hmem : mem.length = bufferLength) (stream : List UInt8)
    (cuts : List Nat) : Tracks (.start stream cuts) (.start mem (.start stream cuts)) where
  holds := ⟨List.nil_prefix, hmem, rfl⟩
  short := Nat.zero_lt_succ 7
  sock := rfl
  texts := ⟨[], rfl, rfl⟩
  total_nonneg := le_refl _
  total_le := le_refl _

/-- The variables when `parse` is called on the next block. -/
def Held.filled (h : Held) (s : ReadState Socket) : ReadState Socket :=
  s.filled h.left (h.sock.chunk h.room) (h.sock.rest h.room)

theorem Held.filled_buffer (h : Held) (s : ReadState Socket) :
    (h.filled s).buffer = h.block ++ List.replicate (bufferLength - h.block.length) 0 := rfl

theorem Held.filled_buffer_length (hshort : h.left.length < 8) (s : ReadState Socket) :
    (h.filled s).buffer.length = bufferLength :=
  s.filled_length _ (Held.block_length_le hshort)

/-- What `parse` sees of the buffer: the packets of the block, what is left of it, and NULs. -/
theorem Held.view_filled {ps : List Rpc.Payload} {left : List UInt8}
    (hblock : h.block = Rpc.code.encodeAll ps ++ left) (s : ReadState Socket) :
    view (h.filled s).buffer (ParseState.start 0 h.block.length).buffer_used
      = Rpc.code.encodeAll ps ++ (left ++ List.replicate (bufferLength - h.block.length) 0) := by
  show view (h.filled s).buffer (0 : Nat) = _
  rw [view_natCast, List.drop_zero, filled_buffer, ← List.append_assoc, ← hblock]

/-- How many bytes of the block are left behind its packets. -/
theorem Held.count_consume {ps : List Rpc.Payload} {left : List UInt8}
    (hblock : h.block = Rpc.code.encodeAll ps ++ left) :
    ((ParseState.start 0 h.block.length).consume ps).count_used = left.length := by
  have hlen := congrArg List.length hblock
  rw [List.length_append] at hlen
  rw [ParseState.consume_count_used]
  show (h.block.length : Int) - (Rpc.code.encodeAll ps).length = left.length
  omega

/-- `read_string` reads the next block and calls `parse` on it. -/
theorem Tracks.visits_block (ht : Tracks h s) (hmore : h.sock.stream ≠ []) :
    Visits (readPass Socket.readn) (.filling s)
      (.parsing (h.filled s) (.start 0 h.block.length)) := by
  have hread : Socket.readn s.sock (bufferLength - h.left.length)
      = (some (h.sock.chunk h.room), h.sock.rest h.room) := by
    rw [ht.sock]
    rfl
  have hpass : fillPass Socket.readn s = .again (.parsing (h.filled s) (.start 0 h.block.length)) :=
    fillPass_block ht.holds hread (Held.chunk_length_pos hmore ht.short)
      (Held.block_length_le ht.short)
  exact Relation.ReflTransGen.single hpass

/-- When the block is whole packets and less than a header, `parse` delivers the packets and
    returns what is left. -/
theorem Tracks.visits_packets (ht : Tracks h s) (hmore : h.sock.stream ≠ [])
    {ps : List Rpc.Payload} {left : List UInt8} (hblock : h.block = Rpc.code.encodeAll ps ++ left)
    (hleft : left.length < 8) :
    ∃ p q, Visits (readPass Socket.readn) (.filling s) (.parsing (h.filled s) p) ∧
      readPass Socket.readn (.parsing (h.filled s) p) = copyPass (h.filled s) q ∧
      q.count_used = left.length ∧
      q.delivered.map Delivery.msg = ps.map Rpc.Payload.text := by
  have hlen := congrArg List.length hblock
  rw [List.length_append] at hlen
  have hreturns : Returns (parsePass (h.filled s).buffer) (.start 0 h.block.length)
      (some ((ParseState.start 0 h.block.length).consume ps)) := by
    apply returns_packets (Held.view_filled hblock s) (le_refl _)
    · show ((Rpc.code.encodeAll ps).length : Int) ≤ (h.block.length : Int)
      omega
    · show (h.block.length : Int) < (Rpc.code.encodeAll ps).length + 8
      omega
  obtain ⟨p, hvisits, hpass⟩ := readPass_parse_returns hreturns
  refine ⟨p, _, (ht.visits_block hmore).trans hvisits, hpass, Held.count_consume hblock, ?_⟩
  rw [ParseState.consume_delivered]
  simp [ParseState.start]

/-- What `read_string` took and delivered after a block of whole packets and less than a
    header. -/
theorem Tracks.texts_kept (ht : Tracks h s) {ps : List Rpc.Payload} {left : List UInt8}
    (hblock : h.block = Rpc.code.encodeAll ps ++ left) {q : ParseState}
    (hq : q.delivered.map Delivery.msg = ps.map Rpc.Payload.text) (n : Nat) :
    ∃ done, (h.sock.rest h.room).taken = Rpc.code.encodeAll done ++ left ∧
      (((h.filled s).kept q n).delivered).map Delivery.msg = done.map Rpc.Payload.text := by
  obtain ⟨done, htaken, hdelivered⟩ := ht.texts
  refine ⟨done ++ ps, ?_, ?_⟩
  · have hrest : (h.sock.rest h.room).taken = h.sock.taken ++ h.sock.chunk h.room := rfl
    rw [hrest, htaken, List.append_assoc, PrefixCode.encodeAll_append, List.append_assoc, ← hblock]
    rfl
  · have hkept : ((h.filled s).kept q n).delivered = s.delivered ++ q.delivered := rfl
    rw [hkept, List.map_append, List.map_append, hdelivered, hq]

/-- Every round takes a byte and leaves no more than seven, so `total_length` stays small. -/
theorem Tracks.total_kept (ht : Tracks h s) (hmore : h.sock.stream ≠ []) {n : Nat} (hn : n < 8)
    (q : ParseState) : 0 ≤ ((h.filled s).kept q n).total_length ∧
      ((h.filled s).kept q n).total_length ≤ 7 * (h.sock.rest h.room).taken.length := by
  have htotal : ((h.filled s).kept q n).total_length = s.total_length + n := rfl
  have htaken : (h.sock.rest h.room).taken.length
      = h.sock.taken.length + (h.sock.chunk h.room).length := List.length_append
  have hpos := Held.chunk_length_pos hmore ht.short
  have hlow := ht.total_nonneg
  have hhigh := ht.total_le
  rw [htotal, htaken]
  omega

/-- A round of `read_string` keeps what the receiver keeps. -/
theorem Tracks.keeps (ht : Tracks h s) (hk : Keeps h h') :
    ∃ s', Tracks h' s' ∧ Visits (readPass Socket.readn) (.filling s) (.filling s') := by
  obtain ⟨ps, hblock⟩ := hk.block
  obtain ⟨p, q, hvisits, hpass, hcount, hq⟩ := ht.visits_packets hk.more hblock hk.short
  have hlen := congrArg List.length hblock
  rw [List.length_append] at hlen
  have hfilled := Held.filled_buffer_length ht.short s
  have hfit : h'.left.length ≤ bufferLength := by
    rw [bufferLength]
    have := hk.short
    omega
  have hcopy := copyPass_kept hcount (hfilled.symm ▸ hfit)
  rw [if_pos (by simpa using hk.left_ne_nil)] at hcopy
  refine ⟨(h.filled s).kept q h'.left.length, ?_, hvisits.tail (hpass.trans hcopy)⟩
  -- what `strncpy` left at the front of the buffer is what the receiver holds
  have hfill : strncpyFill h'.left.length (h.filled s).buffer = h'.left := by
    rw [Held.filled_buffer, strncpyFill_append (by omega), hk.copied]
  constructor
  case holds =>
    have hholds := ReadState.kept_holds q hfilled hfit
    rwa [hfill] at hholds
  case short => exact hk.short
  case sock => exact hk.sock.symm
  case texts =>
    rw [hk.sock]
    exact ht.texts_kept hblock hq _
  case total_nonneg => exact (ht.total_kept hk.more hk.short q).1
  case total_le =>
    rw [hk.sock]
    exact (ht.total_kept hk.more hk.short q).2

/-- `read_string` follows the receiver through any number of reads. -/
theorem Tracks.run (ht : Tracks h s) (hk : Relation.ReflTransGen Keeps h h') :
    ∃ s', Tracks h' s' ∧ Visits (readPass Socket.readn) (.filling s) (.filling s') := by
  induction hk with
  | refl => exact ⟨s, ht, .refl⟩
  | tail _ hlast ih =>
    obtain ⟨s₁, ht₁, hv₁⟩ := ih
    obtain ⟨s₂, ht₂, hv₂⟩ := ht₁.keeps hlast
    exact ⟨s₂, ht₂, hv₁.trans hv₂⟩

/-- When nothing is left over or to read, `read_string` returns. -/
theorem Tracks.finishes (ht : Tracks h s) (hf : h.Finishes) :
    ∃ r total done, Returns (readPass Socket.readn) (.filling s) r ∧ r.ret = some (intOf total) ∧
      0 ≤ total ∧ total ≤ 7 * r.sock.taken.length ∧ r.sock = h.sock.rest h.room ∧
      r.sock.taken = Rpc.code.encodeAll done ∧
      r.delivered.map Delivery.msg = done.map Rpc.Payload.text := by
  rcases hf with ⟨hend, hnil⟩ | ⟨hmore, ps, hblock⟩
  · -- `readn` returns 0
    obtain ⟨done, htaken, hdelivered⟩ := ht.texts
    have hread : Socket.readn s.sock (bufferLength - h.left.length)
        = (some [], h.sock.rest h.room) := by
      rw [ht.sock, Socket.readn, Socket.chunk_eof hend]
      rfl
    have hsame : (h.sock.rest h.room).taken = h.sock.taken := by
      simp [Socket.rest, Socket.chunk_eof hend]
    refine ⟨_, s.total_length, done, Returns.leave (fillPass_eof ht.holds hread), rfl,
      ht.total_nonneg, ?_, rfl, ?_, hdelivered⟩
    · rw [hsame]
      exact ht.total_le
    · rw [hsame, htaken, hnil, List.append_nil]
  · -- `parse` returns 0
    rw [← List.append_nil (Rpc.code.encodeAll ps)] at hblock
    obtain ⟨p, q, hvisits, hpass, hcount, hq⟩ := ht.visits_packets hmore hblock (by decide)
    have hcopy := copyPass_kept hcount (Nat.zero_le (h.filled s).buffer.length)
    rw [if_neg (by simp)] at hcopy
    obtain ⟨done, htaken, hdelivered⟩ := ht.texts_kept hblock hq 0
    obtain ⟨hlow, hhigh⟩ := ht.total_kept hmore (by decide : 0 < 8) q
    rw [List.append_nil] at htaken
    exact ⟨_, _, done, hvisits.returns.mpr (Returns.leave (hpass.trans hcopy)), rfl, hlow, hhigh,
      rfl, htaken, hdelivered⟩

/-- A packet cut behind its header makes `parse` return a negative count, or read on past the
    buffer. -/
theorem Tracks.cutsPacket (ht : Tracks h s) (hc : h.CutsPacket) :
    ∃ r, Returns (readPass Socket.readn) (.filling s) r ∧ r.ret = none := by
  obtain ⟨hmore, ps, p, left, hblock, hleft, h8, hlt⟩ := hc
  have hlen := congrArg List.length hblock
  rw [List.length_append] at hlen
  let q := (ParseState.start 0 h.block.length).consume ps
  let zeros := List.replicate (bufferLength - h.block.length) (0 : UInt8)
  have hstart : view (h.filled s).buffer (ParseState.start 0 h.block.length).buffer_used
      = Rpc.code.encodeAll ps ++ (left ++ zeros) := Held.view_filled hblock s
  have hvisits : Visits (parsePass (h.filled s).buffer) (.start 0 h.block.length) q := by
    apply visits_consume hstart (le_refl _)
    show ((Rpc.code.encodeAll ps).length : Int) < (h.block.length : Int)
    omega
  have hcount : q.count_used = left.length := Held.count_consume hblock
  have hview : view (h.filled s).buffer q.buffer_used = left ++ zeros := by
    rw [ParseState.consume_buffer_used]
    exact view_add hstart (le_refl _) rfl
  obtain ⟨r, hr, hnone⟩ := returns_begun hview hcount hleft h8 hlt
    (Held.filled_buffer_length ht.short s)
  have hread := (ht.visits_block hmore).trans (visits_parsing hvisits)
  exact ⟨r, (Visits.returns hread).mpr hr, hnone⟩

/-! ### Any cut -/

variable {ss fs : List (List UInt8)} {cuts : List Nat} {mem : Mem}

theorem reassembles_of_cleanCut {ps : List Rpc.Payload} (hss : ss = ps.map Rpc.Payload.text)
    (hfs : fs = ps.map Rpc.code.encode) (hlen : fs.flatten.length ≤ 1024)
    (hmem : mem.length = bufferLength) (hcut : CleanCut fs.flatten cuts) :
    Reassembles ss fs cuts mem := by
  obtain ⟨h, hreach, hf⟩ := hcut
  obtain ⟨s, ht, hvisits⟩ := (Tracks.start hmem fs.flatten cuts).run hreach
  obtain ⟨r, total, done, hr, hret, hlow, hhigh, hsock, htaken, hdelivered⟩ := ht.finishes hf
  have hall : r.sock.taken ++ r.sock.stream = fs.flatten := by
    rw [hsock, h.sock.taken_append]
    exact Keeps.stream_eq hreach
  -- what was taken is the packets of the first messages
  have hdone : done <+: ps := by
    apply Rpc.code.isPrefix_of_encodeAll
    rw [← htaken, ← Rpc.code.flatten_map_encode ps, ← hfs, ← hall]
    exact List.prefix_append _ _
  have htake : done = ps.take done.length := List.prefix_iff_eq_take.mp hdone
  have hshort : r.sock.taken.length ≤ 1024 := by
    rw [← hall, List.length_append] at hlen
    omega
  have hint : intOf total = total := intOf_of_range hlow (by omega)
  refine ⟨r, total, hvisits.returns.mpr hr, hret.trans (by rw [hint]), hlow, done.length, ?_, ?_⟩
  · rw [htaken, hfs, ← List.map_take, ← htake, Rpc.code.flatten_map_encode]
  · rw [hdelivered, hss, ← List.map_take, ← htake]

theorem not_reassembles_of_overcut (hmem : mem.length = bufferLength)
    (hcut : Overcut fs.flatten cuts) : ¬ Reassembles ss fs cuts mem := by
  obtain ⟨h, hreach, hc⟩ := hcut
  obtain ⟨s, ht, hvisits⟩ := (Tracks.start hmem fs.flatten cuts).run hreach
  obtain ⟨r, hr, hnone⟩ := ht.cutsPacket hc
  intro hre
  obtain ⟨r', ret, hr', hret, -⟩ := hre
  have heq : r' = r := Returns.unique hr' (hvisits.returns.mpr hr)
  rw [heq, hnone] at hret
  cases hret

/-- A stream of packets of messages, cut anywhere: `read_string` reassembles the messages when
    every read keeps what it leaves, and fails when the first one that does not cuts a packet
    behind its header. The only other cuts are those where that read ends inside a header behind
    the magic number, on bytes unlike those at the front of the buffer. -/
theorem reassembles_cut (ss fs : List (List UInt8)) (hss : List.Forall₂ Rpc.Serializes ss fs)
    (hnul : ∀ s ∈ ss, 0 ∉ s) (hlen : fs.flatten.length ≤ 1024) (cuts : List Nat) (mem : Mem)
    (hmem : mem.length = bufferLength) :
    (CleanCut fs.flatten cuts → Reassembles ss fs cuts mem) ∧
    (Overcut fs.flatten cuts → ¬ Reassembles ss fs cuts mem) ∧
    (CleanCut fs.flatten cuts ∨ Overcut fs.flatten cuts ∨ Miscopied fs.flatten cuts) := by
  obtain ⟨ps, hps, hfs⟩ := Rpc.exists_payloads hss
  have htexts : ss = ps.map Rpc.Payload.text := by
    rw [← hps]
    have hself : ∀ s ∈ ss, beforeNul s = id s := fun s hs => beforeNul_of_notMem (hnul s hs)
    rw [List.map_congr_left hself, List.map_id]
  refine ⟨reassembles_of_cleanCut htexts hfs hlen hmem, not_reassembles_of_overcut hmem, ?_⟩
  have htodo : (Held.start fs.flatten cuts).left ++ (Held.start fs.flatten cuts).sock.stream
      = Rpc.code.encodeAll ps := by
    rw [← Rpc.code.flatten_map_encode ps, ← hfs]
    rfl
  obtain ⟨h, hreach, hf | hc | hg⟩ := Held.cut_cases (h := Held.start fs.flatten cuts) _ rfl
    (Nat.zero_lt_succ 7) htodo
  · exact Or.inl ⟨h, hreach, hf⟩
  · exact Or.inr (Or.inl ⟨h, hreach, hc⟩)
  · exact Or.inr (Or.inr ⟨h, hreach, hg⟩)

/-- The packets of `ab` and `cd`, cut three bytes into the second one. -/
theorem reassembles_cut_two :
    let f : List UInt8 := [0x22, 0x33, 0x44, 0x55, 11, 0, 0, 0, 97, 98, 0]
    let g : List UInt8 := [0x22, 0x33, 0x44, 0x55, 11, 0, 0, 0, 99, 100, 0]
    Reassembles [[97, 98], [99, 100]] [f, g] [14, 8] (List.replicate 1024 7) := by
  intro f g
  let p : Rpc.Payload := { text := [97, 98], nul_free := by decide, fits := by decide }
  let q : Rpc.Payload := { text := [99, 100], nul_free := by decide, fits := by decide }
  let h : Held := { left := [0x22, 0x33, 0x44], sock := (Socket.start (f ++ g) [14, 8]).rest 1024 }
  have hkeeps : Keeps (.start [f, g].flatten [14, 8]) h :=
    { more := by decide
      block := ⟨[p], by decide⟩
      left_ne_nil := by decide
      short := by decide
      copied := by decide
      sock := rfl }
  have hfinishes : h.Finishes := Or.inr ⟨by decide, [q], by decide⟩
  exact (reassembles_cut _ _
    (.cons ⟨by decide, List.replicate 11 0, by decide⟩
      (.cons ⟨by decide, List.replicate 11 0, by decide⟩ .nil))
    (by decide) (by decide) _ _ (List.length_replicate ..)).1 ⟨h, .single hkeeps, hfinishes⟩

/-- The packet of `ab`, cut behind the first byte of its text. -/
theorem cut_packet_fails :
    let f : List UInt8 := [0x22, 0x33, 0x44, 0x55, 11, 0, 0, 0, 97, 98, 0]
    Rpc.Serializes [97, 98] f ∧ ¬ Reassembles [[97, 98]] [f] [9, 2] (List.replicate 1024 0) := by
  let p : Rpc.Payload := { text := [97, 98], nul_free := by decide, fits := by decide }
  refine ⟨⟨by decide, List.replicate 11 0, by decide⟩, ?_⟩
  refine not_reassembles_of_overcut (List.length_replicate ..) ⟨_, .refl, by decide, [], p,
    [0x22, 0x33, 0x44, 0x55, 11, 0, 0, 0, 97], by decide, ⟨[98, 0], by decide⟩, by decide,
    by decide⟩

end Receiver
