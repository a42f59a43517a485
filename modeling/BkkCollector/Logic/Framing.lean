import Mathlib.Data.List.Basic
import Mathlib.Order.Nat

/-! # Length-prefixed logs

A log is a list of frames, one after the other. A frame is a head of fixed size followed by a
payload whose size the head announces; a head may also announce nothing a reader accepts. `next`
reads one frame, `chain` all of them up to the point where the reader stops: at the end, in the
middle of a head or a payload, or at a head it does not accept.

* `chain_append`: reading the bytes of well-formed frames gives back the frames, and goes on with
  what follows them.
* `chain_sound`: what was read, followed by what was left, is the log.
* `next_take`: a proper prefix of a frame is not a frame, so a torn frame stops the reader.
-/

namespace BkkCollector.Logic.Framing

variable {β : Type}

/-- How frames are told apart: the size of a head, and the payload size a head announces. -/
structure Format (β : Type) where
  headSize : ℕ
  headSize_pos : 0 < headSize
  size : List β → Option ℕ

/-- A head and its payload. -/
structure Frame (β : Type) where
  head : List β
  payload : List β
  deriving DecidableEq

/-- The bytes of a frame. -/
def Frame.bytes (f : Frame β) : List β := f.head ++ f.payload

/-- The bytes of a list of frames. -/
def encode (fs : List (Frame β)) : List β := fs.flatMap Frame.bytes

@[simp] theorem encode_nil : encode ([] : List (Frame β)) = [] := rfl

@[simp] theorem encode_cons (f : Frame β) (fs : List (Frame β)) :
    encode (f :: fs) = f.bytes ++ encode fs := rfl

@[simp] theorem encode_append (fs gs : List (Frame β)) :
    encode (fs ++ gs) = encode fs ++ encode gs := by simp [encode]

/-- A frame whose head announces its payload. -/
structure Frame.Ok (F : Format β) (f : Frame β) : Prop where
  head : f.head.length = F.headSize
  size : F.size f.head = some f.payload.length

/-- **Reading one frame**: the frame and what follows it. -/
def next (F : Format β) (b : List β) : Option (Frame β × List β) :=
  if (b.take F.headSize).length < F.headSize then none
  else
    match F.size (b.take F.headSize) with
    | none => none
    | some n =>
      if ((b.drop F.headSize).take n).length < n then none
      else some (⟨b.take F.headSize, (b.drop F.headSize).take n⟩, b.drop (F.headSize + n))

variable {F : Format β}

/-- What `next` reads is a well-formed frame at the start of the log. -/
theorem next_sound {b rest : List β} {f : Frame β} (h : next F b = some (f, rest)) :
    f.Ok F ∧ b = f.bytes ++ rest := by
  unfold next at h
  split_ifs at h with h1
  split at h
  · cases h
  · next n hn =>
    split_ifs at h with h2
    simp only [Option.some.injEq, Prod.mk.injEq] at h
    obtain ⟨rfl, rfl⟩ := h
    simp only [List.length_take, List.length_drop] at h1 h2
    refine ⟨⟨by simp only [List.length_take]; omega, ?_⟩, ?_⟩
    · rw [hn]
      simp only [List.length_take, List.length_drop, Option.some.injEq]
      omega
    · simp only [Frame.bytes, List.append_assoc]
      rw [← List.drop_drop, List.take_append_drop, List.take_append_drop]

theorem next_append {f : Frame β} (hf : f.Ok F) (rest : List β) :
    next F (f.bytes ++ rest) = some (f, rest) := by
  have h1 : (f.bytes ++ rest).take F.headSize = f.head := by
    rw [Frame.bytes, List.append_assoc, List.take_append_of_le_length hf.head.ge,
      ← hf.head, List.take_length]
  have h2 : (f.bytes ++ rest).drop F.headSize = f.payload ++ rest := by
    rw [Frame.bytes, List.append_assoc, ← hf.head, List.drop_left]
  have h3 : (f.bytes ++ rest).drop (F.headSize + f.payload.length) = rest := by
    rw [← List.drop_drop, h2, List.drop_left]
  unfold next
  rw [h1, if_neg (by rw [hf.head]; omega), hf.size]
  simp only [h2, h3, List.take_left, Nat.lt_irrefl, if_false]

/-- **A torn frame stops the reader**: a proper prefix of a frame is not a frame. -/
theorem next_take {f : Frame β} (hf : f.Ok F) {k : ℕ} (hk : k < f.bytes.length) :
    next F (f.bytes.take k) = none := by
  have hlen : f.bytes.length = F.headSize + f.payload.length := by
    rw [Frame.bytes, List.length_append, hf.head]
  unfold next
  split_ifs with h1
  · rfl
  · have hk1 : F.headSize ≤ k := by
      simp only [List.length_take] at h1
      omega
    have h2 : (f.bytes.take k).take F.headSize = f.head := by
      rw [List.take_take, Nat.min_eq_left hk1, Frame.bytes,
        List.take_append_of_le_length hf.head.ge, ← hf.head, List.take_length]
    rw [h2, hf.size]
    refine if_pos ?_
    simp only [List.length_take, List.length_drop]
    omega

theorem length_next {b rest : List β} {f : Frame β} (h : next F b = some (f, rest)) :
    rest.length < b.length := by
  obtain ⟨hf, rfl⟩ := next_sound h
  have := F.headSize_pos
  have := hf.head
  simp only [Frame.bytes, List.length_append]
  omega

/-- **Reading a log**: the frames up to where the reader stops, and what it left. -/
def chain (F : Format β) (b : List β) : List (Frame β) × List β :=
  match _h : next F b with
  | none => ([], b)
  | some (f, rest) => (f :: (chain F rest).1, (chain F rest).2)
termination_by b.length
decreasing_by all_goals exact length_next _h

theorem chain_of_none {b : List β} (h : next F b = none) : chain F b = ([], b) := by
  rw [chain]
  split
  · rfl
  · next h' => rw [h] at h'; cases h'

theorem chain_of_some {b rest : List β} {f : Frame β} (h : next F b = some (f, rest)) :
    chain F b = (f :: (chain F rest).1, (chain F rest).2) := by
  rw [chain]
  split
  · next h' => rw [h] at h'; cases h'
  · next h' => rw [h] at h'; cases h'; rfl

/-- **What was read**: well-formed frames, followed by bytes on which the reader stops. -/
theorem chain_sound (b : List β) : b = encode (chain F b).1 ++ (chain F b).2 ∧
    (∀ f ∈ (chain F b).1, f.Ok F) ∧ next F (chain F b).2 = none := by
  induction b using chain.induct (F := F) with
  | case1 b h => rw [chain_of_none h]; simp [h]
  | case2 b f rest h ih =>
    obtain ⟨h1, h2, h3⟩ := ih
    obtain ⟨hf, hb⟩ := next_sound h
    rw [chain_of_some h]
    refine ⟨?_, ?_, h3⟩
    · rw [encode_cons, List.append_assoc, ← h1]; exact hb
    · exact List.forall_mem_cons.mpr ⟨hf, h2⟩

/-- **Reading back what was written**, and then whatever follows. -/
theorem chain_append {fs : List (Frame β)} (hfs : ∀ f ∈ fs, f.Ok F) (b : List β) :
    chain F (encode fs ++ b) = (fs ++ (chain F b).1, (chain F b).2) := by
  induction fs with
  | nil => rfl
  | cons f fs ih =>
    obtain ⟨hf, hfs⟩ := List.forall_mem_cons.mp hfs
    have h : next F (encode (f :: fs) ++ b) = some (f, encode fs ++ b) := by
      rw [encode_cons, List.append_assoc]; exact next_append hf _
    rw [chain_of_some h, ih hfs]
    rfl

theorem chain_encode {fs : List (Frame β)} (hfs : ∀ f ∈ fs, f.Ok F) {b : List β}
    (hb : next F b = none) : chain F (encode fs ++ b) = (fs, b) := by
  rw [chain_append hfs, chain_of_none hb, List.append_nil]

theorem next_nil : next F ([] : List β) = none := by
  have := F.headSize_pos
  unfold next
  rw [if_pos (by simpa using this)]

/-- A frame in front of a list of frames has at least one byte. -/
theorem Frame.Ok.length_pos {f : Frame β} (hf : f.Ok F) : 0 < f.bytes.length := by
  have := F.headSize_pos
  have := hf.head
  simp only [Frame.bytes, List.length_append]
  omega

end BkkCollector.Logic.Framing
