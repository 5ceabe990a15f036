import MyFileServer.Net.Buffer

/-!
# The buffer as a byte queue

The readable region is a queue of bytes: `append` and `readFd` add at its
back, `prepend` at its front, the `retrieve` family removes from its front.
Each operation has one lemma here, with the invariant of the indices, and the
run theorem follows from them by simulation.
-/

namespace MyFileServer

open Window Execution

namespace Buffer

/-- The order of the indices, and room for the reset of `retrieveAll`. -/
structure Inv (b : Buffer) : Prop where
  reader_le : b.readerIndex_ ≤ b.writerIndex_
  writer_le : b.writerIndex_ ≤ b.buffer_.length
  cheap_le : kCheapPrepend ≤ b.buffer_.length
  length_le : b.buffer_.length ≤ maxSize

theorem construct_eq_ok {initialSize : ℕ} {b : Buffer} :
    construct initialSize = .ok b ↔
      addSizeT kCheapPrepend initialSize ≤ maxSize ∧
        b = { buffer_ := List.replicate (addSizeT kCheapPrepend initialSize) 0
              readerIndex_ := kCheapPrepend
              writerIndex_ := kCheapPrepend } := by
  unfold construct newStore
  rw [bind_eq_ok]
  simp only [ite_eq_ok]
  constructor
  · intro h
    obtain ⟨store, ⟨hfit, rfl⟩, hresult⟩ := h
    exact ⟨hfit, (Except.ok.inj hresult).symm⟩
  · intro h
    exact ⟨_, ⟨h.1, rfl⟩, congrArg Except.ok h.2.symm⟩

theorem construct_kInitialSize : construct kInitialSize = .ok initial := by
  rw [construct_eq_ok]
  exact ⟨(lt_maxSize (by decide)).le, rfl⟩

theorem construct_inv {initialSize : ℕ} {b : Buffer}
    (hsize : kCheapPrepend + initialSize < 2 ^ 64)
    (hb : construct initialSize = .ok b) : b.Inv ∧ b.readable = [] := by
  rcases construct_eq_ok.mp hb with ⟨hfit, rfl⟩
  rw [addSizeT_eq hsize] at hfit
  refine ⟨⟨le_rfl, ?_, ?_, ?_⟩, by simp [readable]⟩ <;>
    simp only [List.length_replicate, addSizeT_eq hsize] <;> omega

theorem length_initial :
    initial.buffer_.length = kCheapPrepend + kInitialSize :=
  List.length_replicate

theorem initial_inv : initial.Inv := by
  constructor
  · exact le_rfl
  · rw [length_initial]
    exact Nat.le_add_right _ _
  · rw [length_initial]
    exact Nat.le_add_right _ _
  · rw [length_initial]
    exact (lt_maxSize (by decide)).le

theorem initial_readable : initial.readable = [] := by
  simp [initial, readable]

theorem length_readable {b : Buffer} (hb : b.Inv) :
    b.readable.length = b.readableBytes :=
  length_window hb.writer_le

def ofReadable (text : Bytes) : Buffer where
  buffer_ := List.replicate kCheapPrepend 0 ++ text
  readerIndex_ := kCheapPrepend
  writerIndex_ := kCheapPrepend + text.length

theorem ofReadable_inv {text : Bytes}
    (hfit : kCheapPrepend + text.length ≤ maxSize) : (ofReadable text).Inv := by
  have hlength : (List.replicate kCheapPrepend (0 : UInt8) ++ text).length =
      kCheapPrepend + text.length := by
    simp
  constructor <;> simp only [ofReadable, hlength] <;> omega

theorem ofReadable_readable (text : Bytes) : (ofReadable text).readable = text := by
  simp [ofReadable, readable, window]

/-! ## Taking from the front -/

@[simp] theorem retrieve_buffer_ (b : Buffer) (len : ℕ) :
    (b.retrieve len).buffer_ = b.buffer_ := by
  unfold retrieve retrieveAll
  split <;> rfl

theorem retrieveAll_inv {b : Buffer} (hb : b.Inv) : b.retrieveAll.Inv :=
  ⟨le_rfl, hb.cheap_le, hb.cheap_le, hb.length_le⟩

theorem readable_retrieveAll (b : Buffer) : b.retrieveAll.readable = [] := by
  simp [retrieveAll, readable]

theorem retrieve_inv {b : Buffer} (hb : b.Inv) (len : ℕ) :
    (b.retrieve len).Inv := by
  unfold retrieve
  split
  next hlt =>
    unfold readableBytes at hlt
    exact ⟨by simp only; omega, hb.writer_le, hb.cheap_le, hb.length_le⟩
  next => exact retrieveAll_inv hb

theorem readable_retrieve {b : Buffer} (hb : b.Inv) (len : ℕ) :
    (b.retrieve len).readable = b.readable.drop len := by
  unfold retrieve
  split
  next => exact window_drop b.buffer_ b.readerIndex_ b.writerIndex_ len
  next hge =>
    rw [readable_retrieveAll, List.drop_eq_nil_of_le]
    rw [length_readable hb]
    omega

theorem load_storage_ok {b : Buffer} (hb : b.Inv) {len : ℕ}
    (hlen : len ≤ b.readableBytes) :
    b.load .storage b.peek len = .ok (b.readable.take len) := by
  have hwriter := hb.writer_le
  have hreader := hb.reader_le
  unfold readableBytes at hlen
  have hfit : b.readerIndex_ + len ≤ b.writerIndex_ := by omega
  unfold load limit peek
  rw [if_pos ⟨le_rfl, by simp only; omega⟩, readable, window_take hfit]

/-! ## Adding at the front and at the back -/

theorem prepend_ok {b : Buffer} (hb : b.Inv) {data : Bytes}
    (hdata : data.length ≤ b.prependableBytes) :
    ∃ b', b.prepend data = .ok b' ∧ b'.Inv ∧
      b'.readable = data ++ b.readable := by
  have hreader := hb.reader_le
  have hwriter := hb.writer_le
  unfold prependableBytes at hdata
  have hlength :
      (overwrite b.buffer_ (b.readerIndex_ - data.length) data).length =
        b.buffer_.length :=
    length_overwrite (by omega)
  refine ⟨_, if_pos ⟨hdata, by omega⟩, ⟨?_, ?_, ?_, ?_⟩, ?_⟩
  · simp only
    omega
  · simp only [hlength]
    exact hwriter
  · simp only [hlength]
    exact hb.cheap_le
  · simp only [hlength]
    exact hb.length_le
  · exact window_overwrite_front hdata hreader hwriter

/-- The buffer with its content moved down to index 8. -/
def slid (b : Buffer) : Buffer where
  buffer_ := overwrite b.buffer_ kCheapPrepend b.readable
  readerIndex_ := kCheapPrepend
  writerIndex_ := kCheapPrepend + b.readableBytes

theorem length_slid {b : Buffer} (hwriter : b.writerIndex_ ≤ b.buffer_.length)
    (hslide : kCheapPrepend + b.readableBytes ≤ b.buffer_.length) :
    b.slid.buffer_.length = b.buffer_.length := by
  have hcontent : b.readable.length = b.readableBytes := length_window hwriter
  exact length_overwrite (by rw [hcontent]; exact hslide)

theorem readable_slid {b : Buffer} (hwriter : b.writerIndex_ ≤ b.buffer_.length)
    (hslide : kCheapPrepend + b.readableBytes ≤ b.buffer_.length) :
    b.slid.readable = b.readable :=
  window_overwrite_self hwriter hslide

theorem slid_inv {b : Buffer} (hb : b.Inv)
    (hslide : kCheapPrepend + b.readableBytes ≤ b.buffer_.length) :
    b.slid.Inv := by
  have hlength := length_slid hb.writer_le hslide
  constructor
  · exact Nat.le_add_right _ _
  · rw [hlength]
    exact hslide
  · rw [hlength]
    exact hb.cheap_le
  · rw [hlength]
    exact hb.length_le

theorem resizeStore_eq_ok {b b' : Buffer} {n : ℕ} :
    b.resizeStore n = .ok b' ↔
      n ≤ maxSize ∧ b' = { b with buffer_ := resize b.buffer_ n 0 } :=
  ite_eq_ok

theorem resize_inv {b : Buffer} (hb : b.Inv) {n : ℕ}
    (hgrow : b.buffer_.length ≤ n) (hfit : n ≤ maxSize) :
    ({ b with buffer_ := resize b.buffer_ n 0 } : Buffer).Inv := by
  refine ⟨hb.reader_le, ?_, ?_, ?_⟩ <;> simp only [length_resize]
  · exact hb.writer_le.trans hgrow
  · exact hb.cheap_le.trans hgrow
  · exact hfit

theorem makeSpace_eq_ok {b b' : Buffer} {len : ℤ} :
    b.makeSpace len = .ok b' ↔
      if b.writableBytes + b.prependableBytes <
          addSizeT (toSizeT len) kCheapPrepend then
        b.resizeStore (addSizeT b.writerIndex_ (toSizeT len)) = .ok b'
      else
        kCheapPrepend + b.readableBytes ≤ b.buffer_.length ∧ b' = b.slid := by
  unfold makeSpace
  split
  next => rfl
  next => exact ite_eq_ok

/-- When `len` bytes fit afterwards, nothing happened to the vector, or it
grew, or its content was moved. -/
theorem ensureWritableBytes_cases {b b' : Buffer} {len : ℕ}
    (hwriter : b.writerIndex_ ≤ b.buffer_.length)
    (hspace : b.ensureWritableBytes len = .ok b')
    (hroom : b'.writerIndex_ + len ≤ b'.buffer_.length) :
    b' = b ∨
      (∃ n, b.buffer_.length ≤ n ∧ n ≤ maxSize ∧
        b' = { b with buffer_ := resize b.buffer_ n 0 }) ∨
      kCheapPrepend + b.readableBytes ≤ b.buffer_.length ∧ b' = b.slid := by
  unfold ensureWritableBytes at hspace
  split at hspace
  next hshort =>
    unfold writableBytes at hshort
    rw [makeSpace_eq_ok] at hspace
    split at hspace
    next =>
      obtain ⟨hfit, rfl⟩ := resizeStore_eq_ok.mp hspace
      simp only [length_resize] at hroom
      -- the copy fits, so the new size is at least the old one
      have hgrow : b.buffer_.length ≤
          addSizeT b.writerIndex_ (toSizeT (toInt len)) := by
        omega
      exact .inr (.inl ⟨_, hgrow, hfit, rfl⟩)
    next => exact .inr (.inr hspace)
  next =>
    cases hspace
    exact .inl rfl

theorem readable_ensureWritableBytes {b b' : Buffer} {len : ℕ}
    (hwriter : b.writerIndex_ ≤ b.buffer_.length)
    (hspace : b.ensureWritableBytes len = .ok b')
    (hroom : b'.writerIndex_ + len ≤ b'.buffer_.length) :
    b'.readable = b.readable := by
  rcases ensureWritableBytes_cases hwriter hspace hroom with
    rfl | ⟨n, hgrow, _, rfl⟩ | ⟨hslide, rfl⟩
  · rfl
  · exact window_resize hwriter hgrow 0
  · exact readable_slid hwriter hslide

theorem ensureWritableBytes_inv {b b' : Buffer} (hb : b.Inv) {len : ℕ}
    (hspace : b.ensureWritableBytes len = .ok b')
    (hroom : b'.writerIndex_ + len ≤ b'.buffer_.length) :
    b'.Inv ∧ b.buffer_.length ≤ b'.buffer_.length := by
  rcases ensureWritableBytes_cases hb.writer_le hspace hroom with
    rfl | ⟨n, hgrow, hfit, rfl⟩ | ⟨hslide, rfl⟩
  · exact ⟨hb, le_rfl⟩
  · refine ⟨resize_inv hb hgrow hfit, ?_⟩
    simp only [length_resize]
    exact hgrow
  · exact ⟨slid_inv hb hslide, (length_slid hb.writer_le hslide).ge⟩

theorem append_eq_ok {b b' : Buffer} {data : Bytes} :
    b.append data = .ok b' ↔
      ∃ spaced, b.ensureWritableBytes data.length = .ok spaced ∧
        spaced.writerIndex_ + data.length ≤ spaced.buffer_.length ∧
        b' = { spaced with
          buffer_ := overwrite spaced.buffer_ spaced.writerIndex_ data
          writerIndex_ := spaced.writerIndex_ + data.length } := by
  unfold append
  rw [bind_eq_ok]
  apply exists_congr
  intro spaced
  exact and_congr_right fun _ => ite_eq_ok

theorem append_spec {b b' : Buffer} (hb : b.Inv) {data : Bytes}
    (happend : b.append data = .ok b') :
    b'.Inv ∧ b'.readable = b.readable ++ data ∧
      b.buffer_.length ≤ b'.buffer_.length := by
  rcases append_eq_ok.mp happend with ⟨spaced, hspace, hroom, rfl⟩
  have hread := readable_ensureWritableBytes hb.writer_le hspace hroom
  obtain ⟨hspaced, hlen⟩ := ensureWritableBytes_inv hb hspace hroom
  have hreader := hspaced.reader_le
  have hlength :
      (overwrite spaced.buffer_ spaced.writerIndex_ data).length =
        spaced.buffer_.length :=
    length_overwrite hroom
  refine ⟨⟨?_, ?_, ?_, ?_⟩, ?_, by simp only [hlength]; exact hlen⟩
  · simp only
    omega
  · simp only [hlength]
    exact hroom
  · simp only [hlength]
    exact hspaced.cheap_le
  · simp only [hlength]
    exact hspaced.length_le
  · rw [← hread]
    exact window_overwrite_back hreader hspaced.writer_le

/-- Room for `len` more bytes: in the tail, or after `makeSpace`, whose `int`
can hold `len`, has moved or grown the content. -/
def Takes (b : Buffer) (len : ℕ) : Prop :=
  len ≤ b.writableBytes ∨
    len < 2 ^ 31 ∧
      (len + kCheapPrepend ≤ b.writableBytes + b.prependableBytes ∨
        b.writerIndex_ + len ≤ maxSize)

theorem Takes.of_lt {b : Buffer} {len : ℕ} (hlen : len < 2 ^ 31)
    (hgrow : b.writerIndex_ + len ≤ maxSize) : b.Takes len :=
  .inr ⟨hlen, .inr hgrow⟩

/-- The size that `makeSpace` computes falls short of what a copy of `2 ^ 31`
bytes or more needs, unless it is beyond the largest size. -/
theorem grown_lt {w n : ℕ} (hw : w ≤ maxSize) (hn : ¬ n < 2 ^ 31)
    (hfit : addSizeT w (toSizeT (toInt n)) ≤ maxSize) :
    addSizeT w (toSizeT (toInt n)) < w + n := by
  rw [toSizeT_toInt_eq] at *
  unfold addSizeT maxSize at *
  by_cases hmod : n % 2 ^ 32 < 2 ^ 31
  · rw [if_pos hmod] at *
    omega
  · rw [if_neg hmod] at *
    omega

/-- `append` of `len` bytes returns: they fit behind the content, or behind
the content once it has been moved to the front, or the vector can grow by a
length that an `int` holds. -/
def Room (b : Buffer) (len : ℕ) : Prop :=
  len ≤ b.writableBytes ∨
    (len + kCheapPrepend ≤ b.writableBytes + b.prependableBytes ∧
      addSizeT (toSizeT (toInt len)) kCheapPrepend ≤
        b.writableBytes + b.prependableBytes) ∨
    len < 2 ^ 31 ∧ b.writerIndex_ + len ≤ maxSize

theorem Takes.room {b : Buffer} {len : ℕ} (htakes : b.Takes len) :
    b.Room len := by
  rcases htakes with htail | ⟨hlen, hslide | hgrow⟩
  · exact .inl htail
  · refine .inr (.inl ⟨hslide, ?_⟩)
    have hsum : len + kCheapPrepend < 2 ^ 64 := by
      unfold kCheapPrepend
      omega
    rwa [toSizeT_toInt hlen, addSizeT_eq hsum]
  · exact .inr (.inr ⟨hlen, hgrow⟩)

theorem makeSpace_slides_iff {b : Buffer} {len : ℕ}
    (hreader : b.readerIndex_ ≤ b.writerIndex_)
    (hwriter : b.writerIndex_ ≤ b.buffer_.length)
    (hfree : addSizeT (toSizeT (toInt len)) kCheapPrepend ≤
      b.writableBytes + b.prependableBytes) :
    (∃ spaced, b.makeSpace (toInt len) = .ok spaced ∧
        spaced.writerIndex_ + len ≤ spaced.buffer_.length) ↔
      len + kCheapPrepend ≤ b.writableBytes + b.prependableBytes := by
  simp only [makeSpace_eq_ok, if_neg (not_lt.mpr hfree)]
  have hsize : len + kCheapPrepend ≤ b.writableBytes + b.prependableBytes ↔
      kCheapPrepend + b.readableBytes + len ≤ b.buffer_.length := by
    unfold writableBytes prependableBytes readableBytes
    omega
  rw [hsize]
  constructor
  · rintro ⟨spaced, ⟨hslide, rfl⟩, hroom⟩
    rwa [length_slid hwriter hslide] at hroom
  · intro hroom
    have hslide : kCheapPrepend + b.readableBytes ≤ b.buffer_.length := by
      omega
    refine ⟨b.slid, ⟨hslide, rfl⟩, ?_⟩
    rw [length_slid hwriter hslide]
    exact hroom

theorem makeSpace_grows_iff {b : Buffer} {len : ℕ}
    (hwriter : b.writerIndex_ ≤ maxSize)
    (hfull : b.writableBytes + b.prependableBytes <
      addSizeT (toSizeT (toInt len)) kCheapPrepend) :
    (∃ spaced, b.makeSpace (toInt len) = .ok spaced ∧
        spaced.writerIndex_ + len ≤ spaced.buffer_.length) ↔
      len < 2 ^ 31 ∧ b.writerIndex_ + len ≤ maxSize := by
  have hmax := maxSize_lt
  simp only [makeSpace_eq_ok, if_pos hfull, resizeStore_eq_ok]
  constructor
  · rintro ⟨spaced, ⟨hfit, rfl⟩, hroom⟩
    simp only [length_resize] at hroom
    have hlen : len < 2 ^ 31 := by
      by_contra hlarge
      exact absurd hroom (not_le.mpr (grown_lt hwriter hlarge hfit))
    exact ⟨hlen, hroom.trans hfit⟩
  · rintro ⟨hlen, hgrow⟩
    rw [toSizeT_toInt hlen, addSizeT_eq (by omega)]
    exact ⟨_, ⟨hgrow, rfl⟩, by simp⟩

theorem ensureWritableBytes_room_iff {b : Buffer} {len : ℕ}
    (hreader : b.readerIndex_ ≤ b.writerIndex_)
    (hwriter : b.writerIndex_ ≤ b.buffer_.length)
    (hfit : b.writerIndex_ ≤ maxSize) :
    (∃ spaced, b.ensureWritableBytes len = .ok spaced ∧
        spaced.writerIndex_ + len ≤ spaced.buffer_.length) ↔ b.Room len := by
  unfold Room ensureWritableBytes
  by_cases htail : len ≤ b.writableBytes
  · rw [if_neg (not_lt.mpr htail)]
    refine iff_of_true ⟨b, rfl, ?_⟩ (.inl htail)
    unfold writableBytes at htail
    omega
  · rw [if_pos (not_le.mp htail)]
    by_cases hfree : addSizeT (toSizeT (toInt len)) kCheapPrepend ≤
        b.writableBytes + b.prependableBytes
    · rw [makeSpace_slides_iff hreader hwriter hfree]
      have hint : len < 2 ^ 31 →
          len + kCheapPrepend ≤ b.writableBytes + b.prependableBytes := by
        intro hlen
        have hsum : len + kCheapPrepend < 2 ^ 64 := by
          unfold kCheapPrepend
          omega
        rwa [toSizeT_toInt hlen, addSizeT_eq hsum] at hfree
      constructor
      · exact fun hslide => .inr (.inl ⟨hslide, hfree⟩)
      · rintro (hfits | hslide | hgrow)
        · exact absurd hfits htail
        · exact hslide.1
        · exact hint hgrow.1
    · rw [makeSpace_grows_iff hfit (not_le.mp hfree)]
      constructor
      · exact fun hgrow => .inr (.inr hgrow)
      · rintro (hfits | hslide | hgrow)
        · exact absurd hfits htail
        · exact absurd hslide.2 hfree
        · exact hgrow

theorem append_returns_iff {b : Buffer} (hb : b.Inv) {data : Bytes} :
    Returns (b.append data) ↔ b.Room data.length := by
  rw [← ensureWritableBytes_room_iff hb.reader_le hb.writer_le
    (hb.writer_le.trans hb.length_le)]
  unfold Returns
  simp only [append_eq_ok]
  tauto

theorem append_returns {b : Buffer} (hb : b.Inv) {data : Bytes}
    (htakes : b.Takes data.length) : Returns (b.append data) :=
  (append_returns_iff hb).mpr htakes.room

/-- The vector grows by no more than what is appended. -/
theorem append_length_le {b b' : Buffer} (hb : b.Inv) {data : Bytes}
    (hlen : data.length < 2 ^ 31) (happend : b.append data = .ok b') :
    b'.buffer_.length ≤ b.buffer_.length + data.length := by
  have hwriter := hb.writer_le
  obtain ⟨spaced, hspace, hroom, rfl⟩ := append_eq_ok.mp happend
  simp only [length_overwrite hroom]
  unfold ensureWritableBytes at hspace
  split at hspace
  next =>
    rw [makeSpace_eq_ok] at hspace
    split at hspace
    next =>
      obtain ⟨_, rfl⟩ := resizeStore_eq_ok.mp hspace
      rw [length_resize, toSizeT_toInt hlen]
      exact (Nat.mod_le _ _).trans (by omega)
    next =>
      obtain ⟨hslide, rfl⟩ := hspace
      rw [length_slid hwriter hslide]
      omega
  next =>
    cases hspace
    omega

theorem append_initial_lt {data : Bytes} {b : Buffer}
    (happend : initial.append data = .ok b) : data.length < 2 ^ 31 := by
  have hroom := (append_returns_iff initial_inv).mp ⟨b, happend⟩
  unfold Room writableBytes prependableBytes at hroom
  rw [length_initial] at hroom
  unfold initial kCheapPrepend kInitialSize at hroom
  simp only at hroom
  rcases hroom with htail | hslide | hgrow
  · omega
  · omega
  · exact hgrow.1

/-- What a caller of `ensureWritableBytes(len)` relies on: it returns with
`len` writable bytes and the content as it was, and a copy of `len` bytes to
`beginWrite()` stays in the vector. -/
def EnsuresWritable (b : Buffer) (len : ℕ) : Prop :=
  ∃ b', b.ensureWritableBytes len = .ok b' ∧
    len ≤ b'.writableBytes ∧ b'.readable = b.readable ∧
    b'.writerIndex_ + len ≤ b'.buffer_.length

theorem ensuresWritable_iff_room {b : Buffer} {len : ℕ}
    (hreader : b.readerIndex_ ≤ b.writerIndex_)
    (hwriter : b.writerIndex_ ≤ b.buffer_.length)
    (hfit : b.writerIndex_ ≤ maxSize) :
    b.EnsuresWritable len ↔ b.Room len := by
  rw [← ensureWritableBytes_room_iff hreader hwriter hfit]
  apply exists_congr
  intro b'
  refine and_congr_right fun hspace => ?_
  constructor
  · exact fun h => h.2.2
  · intro hroom
    refine ⟨?_, readable_ensureWritableBytes hwriter hspace hroom, hroom⟩
    unfold writableBytes
    omega

/-- The test of `makeSpace` agrees with the true length unless the `int` is
between `-2 ^ 31` and `-9`; from `-8` on the sum wraps round to less than
eight. -/
theorem addSizeT_toInt_le_iff {len free : ℕ} (hslide : len + kCheapPrepend ≤ free)
    (hfree : free < 2 ^ 63) :
    addSizeT (toSizeT (toInt len)) kCheapPrepend ≤ free ↔
      len % 2 ^ 32 < 2 ^ 31 ∨ 2 ^ 32 - kCheapPrepend ≤ len % 2 ^ 32 := by
  rw [toSizeT_toInt_eq]
  unfold addSizeT kCheapPrepend at *
  split_ifs <;> omega

/-- `makeSpace` takes the length as an `int`: from `2 ^ 31` on it does its
work only where the content can be moved to the front, and the `int` does not
keep it from that. -/
theorem ensuresWritable_iff {b : Buffer} {len : ℕ}
    (hreader : b.readerIndex_ ≤ b.writerIndex_)
    (hwriter : b.writerIndex_ ≤ b.buffer_.length)
    (hgrow : b.writerIndex_ + len ≤ maxSize) :
    b.EnsuresWritable len ↔
      len < 2 ^ 31 ∨ len ≤ b.writableBytes ∨
        len + kCheapPrepend ≤ b.writableBytes + b.prependableBytes ∧
          (len % 2 ^ 32 < 2 ^ 31 ∨ 2 ^ 32 - kCheapPrepend ≤ len % 2 ^ 32) := by
  rw [ensuresWritable_iff_room hreader hwriter (by omega)]
  unfold Room
  by_cases htail : len ≤ b.writableBytes
  · exact iff_of_true (.inl htail) (.inr (.inl htail))
  · have hmax := maxSize_lt_off64
    have hfree : b.writableBytes + b.prependableBytes < 2 ^ 63 := by
      unfold writableBytes prependableBytes at *
      omega
    rw [and_congr_right fun hslide => @addSizeT_toInt_le_iff len _ hslide hfree]
    constructor
    · rintro (hfits | hslide | hlen)
      · exact absurd hfits htail
      · exact .inr (.inr hslide)
      · exact .inl hlen.1
    · rintro (hlen | hfits | hslide)
      · exact .inr (.inr ⟨hlen, hgrow⟩)
      · exact absurd hfits htail
      · exact .inr (.inl hslide)

theorem ensuresWritable_initial :
    initial.writerIndex_ + 100000 ≤ maxSize ∧ initial.EnsuresWritable 100000 := by
  have hgrow : initial.writerIndex_ + 100000 ≤ maxSize := (lt_maxSize (by decide)).le
  exact ⟨hgrow, (ensuresWritable_iff initial_inv.reader_le initial_inv.writer_le hgrow).mpr
    (.inl (by decide))⟩

/-- The `int` of `2 ^ 32` is zero, so a new buffer finds itself large enough
and stays as it is. -/
theorem not_ensuresWritable_initial :
    initial.writerIndex_ + 2 ^ 32 ≤ maxSize ∧
      initial.ensureWritableBytes (2 ^ 32) = .ok initial ∧
      initial.writableBytes = kInitialSize ∧ ¬ initial.EnsuresWritable (2 ^ 32) := by
  have hwritable : initial.writableBytes = kInitialSize := by
    unfold writableBytes
    rw [length_initial]
    rfl
  have hsame : initial.ensureWritableBytes (2 ^ 32) = .ok initial := by
    unfold ensureWritableBytes
    rw [hwritable, if_pos (by decide), makeSpace_eq_ok, hwritable, if_neg (by decide)]
    refine ⟨?_, ?_⟩
    · rw [length_initial]
      exact Nat.le_add_right _ _
    · unfold slid
      rw [initial_readable]
      rfl
  refine ⟨(lt_maxSize (by decide)).le, hsame, hwritable, ?_⟩
  rintro ⟨b', hspace, hroom, _⟩
  rw [hsame] at hspace
  cases hspace
  rw [hwritable] at hroom
  exact absurd hroom (by decide)

def filled (b : Buffer) (head : Bytes) : Buffer :=
  { b with
    buffer_ := overwrite b.buffer_ b.writerIndex_ head
    writerIndex_ := b.writerIndex_ + head.length }

theorem filled_spec {b : Buffer} (hb : b.Inv) {head : Bytes}
    (hhead : head.length ≤ b.writableBytes) :
    (b.filled head).Inv ∧ (b.filled head).readable = b.readable ++ head ∧
      (b.filled head).buffer_.length = b.buffer_.length := by
  have hreader := hb.reader_le
  have hwriter := hb.writer_le
  unfold writableBytes at hhead
  have hlength :
      (overwrite b.buffer_ b.writerIndex_ head).length = b.buffer_.length :=
    length_overwrite (by omega)
  refine ⟨⟨?_, ?_, ?_, ?_⟩, ?_, hlength⟩ <;> simp only [filled, hlength]
  · omega
  · omega
  · exact hb.cheap_le
  · exact hb.length_le
  · exact window_overwrite_back hreader hwriter

theorem readFd_of_le {b : Buffer} {data : Bytes}
    (hdata : data.length ≤ b.writableBytes) :
    b.readFd data = .ok (b.filled data) := by
  unfold readFd
  simp only [if_pos hdata, List.take_of_length_le hdata]
  rfl

theorem readFd_of_gt {b : Buffer} (hb : b.Inv) {data : Bytes}
    (hdata : b.writableBytes < data.length) :
    b.readFd data =
      (b.filled (data.take b.writableBytes)).append
        (data.drop b.writableBytes) := by
  have hwriter := hb.writer_le
  have htake : (data.take b.writableBytes).length = b.writableBytes := by
    rw [List.length_take, min_eq_left hdata.le]
  have hlength :
      (overwrite b.buffer_ b.writerIndex_
        (data.take b.writableBytes)).length =
        b.writerIndex_ + (data.take b.writableBytes).length := by
    rw [length_overwrite] <;> rw [htake] <;> unfold writableBytes <;> omega
  unfold readFd
  simp only [if_neg (not_le.mpr hdata), hlength]
  rfl

theorem readFd_spec {b b' : Buffer} (hb : b.Inv) {data : Bytes}
    (hread : b.readFd data = .ok b') :
    b'.Inv ∧ b'.readable = b.readable ++ data ∧
      b.buffer_.length ≤ b'.buffer_.length := by
  by_cases hdata : data.length ≤ b.writableBytes
  · rw [readFd_of_le hdata, Except.ok.injEq] at hread
    subst hread
    have hfilled := filled_spec hb hdata
    exact ⟨hfilled.1, hfilled.2.1, hfilled.2.2.ge⟩
  · rw [readFd_of_gt hb (not_le.mp hdata)] at hread
    have hfilled := filled_spec hb (List.length_take_le b.writableBytes data)
    have happend := append_spec hfilled.1 hread
    refine ⟨happend.1, ?_, hfilled.2.2 ▸ happend.2.2⟩
    rw [happend.2.1, hfilled.2.1, List.append_assoc, List.take_append_drop]

theorem readFd_returns {b : Buffer} (hb : b.Inv) {data : Bytes}
    (hdata : data.length ≤ b.readvCapacity)
    (hgrow : b.writerIndex_ + data.length ≤ maxSize) :
    Returns (b.readFd data) := by
  by_cases hle : data.length ≤ b.writableBytes
  · rw [readFd_of_le hle]
    exact returns_ok _
  · have hlt := not_le.mp hle
    rw [readFd_of_gt hb hlt]
    have hfilled := filled_spec hb (List.length_take_le b.writableBytes data)
    have htake : (data.take b.writableBytes).length = b.writableBytes := by
      rw [List.length_take, min_eq_left hlt.le]
    apply append_returns hfilled.1
    apply Takes.of_lt
    · -- readv puts at most 65536 bytes into the stack area
      rw [List.length_drop]
      unfold readvCapacity extrabufSize at hdata
      split at hdata <;> omega
    · rw [List.length_drop]
      simp only [filled, htake]
      omega

/-! ## Every sequence of operations -/

/-- The operations of the public interface.  The end of `retrieveUntil` is
given by its distance from `peek()`. -/
inductive Op
  | append (data : Bytes)
  | retrieve (len : ℕ)
  | retrieveUntil (distance : ℕ)
  | retrieveAll
  | retrieveAsString (len : ℕ)
  | prepend (data : Bytes)
  | readFd (data : Bytes)

def step (b : Buffer) : Op → Exec (Buffer × Bytes)
  | .append data => do return (← b.append data, [])
  | .retrieve len => return (b.retrieve len, [])
  | .retrieveUntil distance => return (b.retrieveUntil (b.peek + distance), [])
  | .retrieveAll => return (b.retrieveAll, [])
  | .retrieveAsString len => b.retrieveAsString len
  | .prepend data => do return (← b.prepend data, [])
  | .readFd data => do return (← b.readFd data, [])

def Permitted (b : Buffer) : Op → Prop
  | .append data => data.length < 2 ^ 31
  | .retrieve _ => True
  | .retrieveUntil distance => distance ≤ b.readableBytes
  | .retrieveAll => True
  | .retrieveAsString len => len ≤ b.readableBytes
  | .prepend data => data.length ≤ b.prependableBytes
  | .readFd data => data.length ≤ b.readvCapacity

def Op.added : Op → Bytes
  | .append data => data
  | .readFd data => data
  | _ => []

/-- The queue of bytes that the buffer stands for. -/
def queueStep (q : Bytes) : Op → Bytes × Bytes
  | .append data => (q ++ data, [])
  | .retrieve len => (q.drop len, [])
  | .retrieveUntil distance => (q.drop distance, [])
  | .retrieveAll => ([], [])
  | .retrieveAsString len => (q.drop len, q.take len)
  | .prepend data => (data ++ q, [])
  | .readFd data => (q ++ data, [])

theorem step_simulates
    {b b' : Buffer} {op : Op} {output : Bytes} (hb : b.Inv)
    (hpermitted : b.Permitted op) (hstep : b.step op = .ok (b', output)) :
    (queueStep b.readable op).2 = output ∧ b'.Inv ∧
      b'.readable = (queueStep b.readable op).1 := by
  cases op with
  | append data =>
      rcases bind_eq_ok.mp hstep with ⟨next, happend, hresult⟩
      cases hresult
      have hspec := append_spec hb happend
      exact ⟨rfl, hspec.1, hspec.2.1⟩
  | retrieve len =>
      cases hstep
      exact ⟨rfl, retrieve_inv hb len, readable_retrieve hb len⟩
  | retrieveUntil distance =>
      cases hstep
      have hdistance : b.peek + distance - b.peek = distance :=
        Nat.add_sub_cancel_left _ _
      unfold retrieveUntil
      rw [hdistance]
      exact ⟨rfl, retrieve_inv hb distance, readable_retrieve hb distance⟩
  | retrieveAll =>
      cases hstep
      exact ⟨rfl, retrieveAll_inv hb, readable_retrieveAll b⟩
  | retrieveAsString len =>
      rcases bind_eq_ok.mp hstep with ⟨text, hload, hresult⟩
      rw [load_storage_ok hb hpermitted] at hload
      cases hload
      cases hresult
      exact ⟨rfl, retrieve_inv hb len, readable_retrieve hb len⟩
  | prepend data =>
      rcases prepend_ok hb hpermitted with ⟨next, hprepend, hnext, hread⟩
      rcases bind_eq_ok.mp hstep with ⟨next', hprepend', hresult⟩
      rw [hprepend] at hprepend'
      cases hprepend'
      cases hresult
      exact ⟨rfl, hnext, hread⟩
  | readFd data =>
      rcases bind_eq_ok.mp hstep with ⟨next, hread, hresult⟩
      cases hresult
      have hspec := readFd_spec hb hread
      exact ⟨rfl, hspec.1, hspec.2.1⟩

theorem step_returns {b : Buffer} {op : Op} (hb : b.Inv)
    (hpermitted : b.Permitted op)
    (hgrow : b.writerIndex_ + op.added.length ≤ maxSize) :
    Returns (b.step op) := by
  cases op with
  | append data =>
      rcases append_returns hb (.of_lt hpermitted hgrow) with ⟨next, hnext⟩
      exact returns_bind.mpr ⟨next, hnext, returns_pure _⟩
  | retrieve len => exact returns_pure _
  | retrieveUntil distance => exact returns_pure _
  | retrieveAll => exact returns_pure _
  | retrieveAsString len =>
      exact returns_bind.mpr
        ⟨_, load_storage_ok hb hpermitted, returns_pure _⟩
  | prepend data =>
      rcases prepend_ok hb hpermitted with ⟨next, hnext, _⟩
      exact returns_bind.mpr ⟨next, hnext, returns_pure _⟩
  | readFd data =>
      rcases readFd_returns hb hpermitted hgrow with ⟨next, hnext⟩
      exact returns_bind.mpr ⟨next, hnext, returns_pure _⟩

/-- What a buffer built for `initialSize` promises over every run of
permitted operations: the order of the indices, the content and the returned
strings of the queue, and that the next operation returns while the vector
can be grown. -/
def RefinesQueue (initialSize : ℕ) : Prop :=
  ∀ start, construct initialSize = .ok start →
    ∀ ops b calls, run step start ops = .ok (b, calls) →
      (∀ call ∈ calls, call.pre.Permitted call.input) →
        b.readerIndex_ ≤ b.writerIndex_ ∧
        b.writerIndex_ ≤ b.buffer_.length ∧
        b.readable = (specRun queueStep [] ops).1 ∧
        calls.map (·.output) = (specRun queueStep [] ops).2 ∧
        ∀ op, b.Permitted op →
          b.writerIndex_ + op.added.length ≤ maxSize → Returns (b.step op)

theorem refinesQueue_of_lt {initialSize : ℕ}
    (hsize : kCheapPrepend + initialSize < 2 ^ 64) :
    RefinesQueue initialSize := by
  intro start hstart ops b calls hrun hpermitted
  have hinitial := construct_inv hsize hstart
  have hstep : ∀ s q op next output, (s.Inv ∧ s.readable = q) →
      s.Permitted op → step s op = .ok (next, output) →
        (queueStep q op).2 = output ∧
          (next.Inv ∧ next.readable = (queueStep q op).1) := by
    intro s q op next output hs hop hnext
    rw [← hs.2]
    exact step_simulates hs.1 hop hnext
  have hsim := run_simulates hstep hrun hinitial hpermitted
  have hb := hsim.1.1
  refine ⟨hb.reader_le, hb.writer_le, hsim.1.2, hsim.2, ?_⟩
  intro op hop hgrow
  exact step_returns hb hop hgrow

/-- The buffer is a byte queue exactly for the initial sizes that the
constructor can add to `kCheapPrepend` without wrapping round. -/
theorem buffer_refines_byte_queue (initialSize : ℕ)
    (hsize : initialSize < 2 ^ 64) :
    RefinesQueue initialSize ↔ initialSize < 2 ^ 64 - kCheapPrepend := by
  constructor
  · intro hrefines
    by_contra hlarge
    -- the sum wraps to fewer than eight bytes, below the first index
    have hwrap : addSizeT kCheapPrepend initialSize < kCheapPrepend := by
      unfold addSizeT kCheapPrepend at *
      omega
    have hfit : addSizeT kCheapPrepend initialSize ≤ maxSize :=
      (hwrap.trans (lt_maxSize (by decide))).le
    have hstart := construct_eq_ok.mpr ⟨hfit, rfl⟩
    have hempty := hrefines _ hstart [] _ [] rfl (by simp)
    have hwriter := hempty.2.1
    rw [List.length_replicate] at hwriter
    exact absurd hwriter (not_le.mpr hwrap)
  · intro hlt
    apply refinesQueue_of_lt
    unfold kCheapPrepend at *
    omega

theorem buffer_refines_byte_queue_default :
    kInitialSize < 2 ^ 64 ∧ RefinesQueue kInitialSize :=
  ⟨by decide,
    (buffer_refines_byte_queue kInitialSize (by decide)).mpr (by decide)⟩

/-- With the largest `size_t` as initial size the constructor builds seven
bytes and puts both indices at eight. -/
theorem construct_wraps :
    construct (2 ^ 64 - 1) =
        .ok { buffer_ := List.replicate 7 0, readerIndex_ := 8, writerIndex_ := 8 } ∧
      ¬ RefinesQueue (2 ^ 64 - 1) := by
  have hstart : construct (2 ^ 64 - 1) =
      .ok { buffer_ := List.replicate 7 0, readerIndex_ := 8, writerIndex_ := 8 } :=
    construct_eq_ok.mpr ⟨(lt_maxSize (by decide)).le, by decide⟩
  refine ⟨hstart, ?_⟩
  intro hrefines
  have hempty := hrefines _ hstart [] _ [] rfl (by simp)
  exact absurd hempty.2.1 (by decide)

end Buffer

end MyFileServer
