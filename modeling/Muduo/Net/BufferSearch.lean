import Muduo.Foundation.Search
import Muduo.Net.BufferStorage

/-!
# BufferSearch — looking for the end of a line

`findCRLF` and `findEOL` search the bytes from `peek()`, or from a given pointer, up to
`beginWrite()`.  A pointer into the storage is an index, and `NULL` is `none`.  The readable
bytes are the only ones read, so the result is a function of the content (`Search.First` says
which), whatever the rest of the storage holds.
-/

namespace Muduo
namespace Net
namespace Buffer

open Search Window

/-- `"\r\n"`. -/
def kCRLF : List UInt8 := [13, 10]

/-- The bytes `[start, beginWrite())`. -/
def textFrom (b : Buffer) (start : Nat) : Except Fault (List UInt8) :=
  b.load start (sizeSub b.beginWrite start)

/-- `std::search(start, beginWrite(), kCRLF, kCRLF + 2)`; its end stands for "not found". -/
def searchCRLF (b : Buffer) (start : Nat) : Except Fault (Option Nat) := do
  let text ← b.textFrom start
  let crlf := start + search kCRLF text
  pure (if crlf = b.beginWrite then none else some crlf)

/-- `memchr(start, '\n', beginWrite() - start)`. -/
def searchEOL (b : Buffer) (start : Nat) : Except Fault (Option Nat) := do
  let text ← b.textFrom start
  pure ((text.findIdx? (· == 10)).map (start + ·))

def findCRLF (b : Buffer) : Except Fault (Option Nat) :=
  b.searchCRLF b.peek

def findCRLFFrom (b : Buffer) (start : Nat) : Except Fault (Option Nat) := do
  assert (b.peek ≤ start)
  assert (start ≤ b.beginWrite)
  b.searchCRLF start

def findEOL (b : Buffer) : Except Fault (Option Nat) :=
  b.searchEOL b.peek

def findEOLFrom (b : Buffer) (start : Nat) : Except Fault (Option Nat) := do
  assert (b.peek ≤ start)
  assert (start ≤ b.beginWrite)
  b.searchEOL start

/-! ## What they return -/

variable {b : Buffer} {k : Nat}

theorem textFrom_ok (h : b.WF) (hk : k ≤ b.content.length) :
    b.textFrom (b.peek + k) = .ok (b.content.drop k) := by
  have hr := h.readableBytes_eq
  have hlen := h.length_content
  have hwriter := h.writer
  have hle : b.readerIndex + k ≤ b.writerIndex := by
    have hreader := h.reader
    omega
  rw [textFrom, beginWrite, peek, sizeSub_of_le hle, load_ok (by omega), Nat.add_sub_cancel' hle,
    window_add_left]
  rfl

/-- The end of the text is where the content ends. -/
theorem beginWrite_eq (h : b.WF) (hk : k ≤ b.content.length) :
    b.beginWrite = b.peek + k + (b.content.drop k).length := by
  have hr := h.readableBytes_eq
  have hlen := h.length_content
  have hreader := h.reader
  rw [List.length_drop, beginWrite, peek]
  omega

theorem searchCRLF_first (h : b.WF) (hk : k ≤ b.content.length) :
    ∃ r, b.searchCRLF (b.peek + k) = .ok (r.map (b.peek + ·)) ∧ First kCRLF b.content k r := by
  have hfirst := search_first (show kCRLF ≠ [] by decide) (b.content.drop k)
  refine ⟨_, ?_, hfirst.of_drop⟩
  rw [searchCRLF, textFrom_ok h hk, ok_bind, beginWrite_eq h hk, pure_eq_ok]
  by_cases hend : search kCRLF (b.content.drop k) = (b.content.drop k).length
  · rw [if_pos (by rw [hend]), if_pos hend]
    rfl
  · rw [if_neg (by omega), if_neg hend]
    simp [Nat.add_assoc]

theorem searchEOL_first (h : b.WF) (hk : k ≤ b.content.length) :
    ∃ r, b.searchEOL (b.peek + k) = .ok (r.map (b.peek + ·)) ∧ First [10] b.content k r := by
  refine ⟨_, ?_, (findIdx?_first 10 (b.content.drop k)).of_drop⟩
  rw [searchEOL, textFrom_ok h hk, ok_bind, pure_eq_ok, Option.map_map]
  congr 2
  funext i
  exact Nat.add_assoc _ _ _

/-- A start between `peek()` and `beginWrite()` passes the assertions. -/
theorem start_ok (h : b.WF) (hk : k ≤ b.content.length) (f : Except Fault (Option Nat)) :
    (do
      assert (b.peek ≤ b.peek + k)
      assert (b.peek + k ≤ b.beginWrite)
      f) = f := by
  have hhigh : b.peek + k ≤ b.beginWrite := by
    rw [beginWrite_eq h hk]
    omega
  rw [assert_pos (Nat.le_add_right _ _), ok_bind, assert_pos hhigh, ok_bind]

theorem findCRLFFrom_first (h : b.WF) (hk : k ≤ b.content.length) :
    ∃ r, b.findCRLFFrom (b.peek + k) = .ok (r.map (b.peek + ·)) ∧ First kCRLF b.content k r := by
  rcases searchCRLF_first h hk with ⟨r, hr, hfirst⟩
  exact ⟨r, (start_ok h hk _).trans hr, hfirst⟩

theorem findEOLFrom_first (h : b.WF) (hk : k ≤ b.content.length) :
    ∃ r, b.findEOLFrom (b.peek + k) = .ok (r.map (b.peek + ·)) ∧ First [10] b.content k r := by
  rcases searchEOL_first h hk with ⟨r, hr, hfirst⟩
  exact ⟨r, (start_ok h hk _).trans hr, hfirst⟩

/-- A failed `findCRLF` is resumed one byte before the end of what it searched: that byte may
be the `'\r'` of a delimiter that the next bytes complete. -/
theorem findCRLF_resume (h : b.WF) (hnone : b.findCRLF = .ok none) (d : List UInt8) {b' : Buffer}
    (h' : b'.WF) (hgrown : b'.content = b.content ++ d) :
    b'.findCRLFFrom (b'.peek + (b.content.length - 1)) = b'.findCRLF := by
  have hk : b.content.length - 1 ≤ b'.content.length := by
    rw [hgrown, List.length_append]
    omega
  rcases searchCRLF_first h (Nat.zero_le _) with ⟨r, hr, hnowhere⟩
  rcases findCRLFFrom_first h' hk with ⟨r₁, hr₁, hfirst₁⟩
  rcases searchCRLF_first h' (Nat.zero_le _) with ⟨r₂, hr₂, hfirst₂⟩
  have hempty : r = none := by
    have hmap : r.map (b.peek + ·) = none := Except.ok.inj (hr.symm.trans hnone)
    exact Option.map_eq_none_iff.mp hmap
  subst hempty
  -- Both searches look for the same first occurrence.
  rw [hgrown] at hfirst₁ hfirst₂
  have hsame : r₁ = r₂ :=
    (hnowhere.resume (Nat.le_refl _) hfirst₁).unique hfirst₂
  rw [hr₁, hsame]
  exact hr₂.symm

/-- For every reachable buffer: a search from `k` bytes behind `peek()` (`k = 0` without a
`start` argument) finds the first delimiter of the content from there on, and `NULL` iff there
is none; and a failed `findCRLF` may be resumed one byte before the old end after an append. -/
theorem delimiter_search_exact (initialSize : Nat) (b : Buffer)
    (h : (system initialSize).Reachable b) :
    (∃ r, b.findCRLF = .ok (r.map (b.peek + ·)) ∧ First kCRLF b.content 0 r) ∧
      (∃ r, b.findEOL = .ok (r.map (b.peek + ·)) ∧ First [10] b.content 0 r) ∧
      (∀ start, b.peek ≤ start → start ≤ b.beginWrite →
        (∃ r, b.findCRLFFrom start = .ok (r.map (b.peek + ·)) ∧
          First kCRLF b.content (start - b.peek) r) ∧
        ∃ r, b.findEOLFrom start = .ok (r.map (b.peek + ·)) ∧
          First [10] b.content (start - b.peek) r) ∧
      ∀ d, b.findCRLF = .ok none →
        ∃ b', b.append d = .ok b' ∧ b'.content = b.content ++ d ∧
          b'.findCRLFFrom (b'.peek + (b.content.length - 1)) = b'.findCRLF := by
  have hwf := reachable_wf h
  refine ⟨searchCRLF_first hwf (Nat.zero_le _), searchEOL_first hwf (Nat.zero_le _), ?_, ?_⟩
  · intro start hlow hhigh
    obtain ⟨k, rfl⟩ := Nat.exists_eq_add_of_le hlow
    have hk : k ≤ b.content.length := by
      have hend := beginWrite_eq hwf (Nat.zero_le _)
      rw [List.drop_zero] at hend
      omega
    rw [Nat.add_sub_cancel_left]
    exact ⟨findCRLFFrom_first hwf hk, findEOLFrom_first hwf hk⟩
  · intro d hnone
    obtain ⟨b', hb', hwf', hgrown⟩ := append_ok hwf d
    exact ⟨b', hb', hgrown, findCRLF_resume hwf hnone d hwf' hgrown⟩

-- The storage keeps "\r\n" before `peek()` and '\n' behind `beginWrite()`; the content is
-- "a\r", and the delimiter is complete only when '\n' is appended.
theorem delimiter_search_exact_split :
    ∃ b, (system 8).Reachable b ∧ b.content = [97, 13] ∧ b.findCRLF = .ok none ∧
      ∃ b', b.append [10] = .ok b' ∧ b'.content = [97, 13] ++ [10] ∧
        b'.findCRLFFrom (b'.peek + (2 - 1)) = b'.findCRLF := by
  let calls : List Call := [.append [13, 10, 97, 13, 10], .retrieve 2, .unwrite 1]
  let b₁ : Buffer := ⟨[0, 0, 0, 0, 0, 0, 0, 0, 13, 10, 97, 13, 10, 0, 0, 0], 10, 12⟩
  have hrun : (system 8).Run (Buffer.new 8) calls b₁ :=
    StepSystem.run_of_execAll (by decide) (by decide)
  have hreach := hrun.reachable (.init rfl)
  have hnone : b₁.findCRLF = .ok none := by decide
  exact ⟨b₁, hreach, rfl, hnone, (delimiter_search_exact 8 b₁ hreach).2.2.2 [10] hnone⟩

end Buffer
end Net
end Muduo
