import Pingsix.Lib.HeaderText

/-!
# The fields of a header map

What is found under a name once fields were removed, appended or set, and the
fields left by setting some of distinct names one after another.
-/

namespace HttpMessage

namespace HeaderMap

variable {m : HeaderMap} {name other : String}

theorem getAll_append_self (m : HeaderMap) (name : String) (value : HeaderValue) :
    getAll (append m name value) name = getAll m name ++ [value] := by
  simp [getAll, append, List.filter_append]

theorem getAll_append_of_ne (h : Text.toAsciiLowercase other ≠ Text.toAsciiLowercase name) (value : HeaderValue) :
    getAll (append m name value) other = getAll m other := by
  simp [getAll, append, List.filter_append, h.symm]

theorem remove_append_self (m : HeaderMap) (name : String) (value : HeaderValue) :
    remove (append m name value) name = remove m name := by
  simp [remove, append, List.filter_append]

theorem remove_remove_self (m : HeaderMap) (name : String) : remove (remove m name) name = remove m name := by
  simp [remove]

theorem getAll_remove_self (m : HeaderMap) (name : String) : getAll (remove m name) name = [] := by
  simp [getAll, remove]

theorem getAll_remove_of_ne (h : Text.toAsciiLowercase other ≠ Text.toAsciiLowercase name) :
    getAll (remove m name) other = getAll m other := by
  unfold getAll remove
  rw [List.filter_filter]
  congr 1
  refine List.filter_congr fun entry _ => ?_
  by_cases he : entry.1 = Text.toAsciiLowercase other
  · simp [he, h]
  · simp [he]

theorem getAll_insert_self (m : HeaderMap) (name : String) (value : HeaderValue) :
    getAll (insert m name value) name = [value] := by
  unfold insert
  rw [getAll_append_self, getAll_remove_self, List.nil_append]

theorem getAll_insert_of_ne (h : Text.toAsciiLowercase other ≠ Text.toAsciiLowercase name) (value : HeaderValue) :
    getAll (insert m name value) other = getAll m other := by
  unfold insert
  rw [getAll_append_of_ne h, getAll_remove_of_ne h]

/-- Names that differ in case alone have the same fields. -/
theorem getAll_congr (m : HeaderMap) (h : Text.toAsciiLowercase other = Text.toAsciiLowercase name) :
    getAll m other = getAll m name := by
  unfold getAll
  rw [h]

end HeaderMap

namespace HeaderValue

theorem ofString_bytes {s : String} {v : HeaderValue} (h : ofString s = some v) : v.bytes = s.toUTF8.data.toList := by
  unfold ofString at h
  split at h
  · cases h
    rfl
  · cases h

theorem ofString_inj {s t : String} {v : HeaderValue} (hs : ofString s = some v) (ht : ofString t = some v) : s = t := by
  have hbytes : s.toUTF8.data.toList = t.toUTF8.data.toList := (ofString_bytes hs).symm.trans (ofString_bytes ht)
  exact String.toByteArray_inj.mp (ByteArray.ext (Array.toList_inj.mp hbytes))

end HeaderValue

end HttpMessage
