import FastBackup.Url.Path

namespace FastBackup
set_option autoImplicit true

/-- The names in the path of a request for `id`. `google_drive3` puts the id into the URL as it is,
the URL is parsed, and the server decodes the segments. -/
def requestPath (id : String) : List (List UInt8) :=
  (Url.path [['d', 'r', 'i', 'v', 'e'], ['v', '3'], ['f', 'i', 'l', 'e', 's']] id.toList).map
    Url.decode

/-- The URL of the requests for `id` is `files/name`. -/
def Leads (id name : String) : Prop :=
  requestPath id = ["drive", "v3", "files", name].map fun s => Utf8.encode s.toList

instance {id name : String} : Decidable (Leads id name) := inferInstanceAs (Decidable (_ = _))

/-- What stands under `files/` and is no file: the list itself, the trash and the new ids. -/
def reservedNames : List String := ["", "trash", "generateIds"]

/-- The requests for `id` go to the file `i`. -/
def Addresses (id i : String) : Prop := Leads id i ∧ i ∉ reservedNames

instance {id i : String} : Decidable (Addresses id i) := inferInstanceAs (Decidable (_ ∧ _))

theorem Leads.unique {id name name' : String} (h : Leads id name) (h' : Leads id name') :
    name = name' := by
  have hnames := h.symm.trans h'
  simp only [List.map_cons, List.map_nil, List.cons.injEq, and_true, true_and] at hnames
  have hchars := Utf8.fromUTF8_encode name.toList
  rw [hnames, Utf8.fromUTF8_encode] at hchars
  simpa using hchars.symm

theorem Addresses.unique {id i j : String} (hi : Addresses id i) (hj : Addresses id j) : i = j :=
  hi.1.unique hj.1

/-- An id that a URL keeps as it is leads to its own file. -/
theorem addresses_self {id : String} (h : Url.plain id.toList = true) (hr : id ∉ reservedNames) :
    Addresses id id := by
  refine ⟨?_, hr⟩
  have hsafe : '%' ∉ id.toList := by
    simp only [Url.plain, Bool.and_eq_true, List.all_eq_true] at h
    intro hm
    simpa using (h.2 _ hm).2
  have hbase :
      List.map Url.decode [['d', 'r', 'i', 'v', 'e'], ['v', '3'], ['f', 'i', 'l', 'e', 's']] =
      ["drive", "v3", "files"].map fun s => Utf8.encode s.toList := by
    decide +kernel
  rw [Leads, requestPath, Url.path_plain h, List.map_append, hbase, List.map_singleton,
    Url.decode_plain hsafe]
  rfl

theorem addresses_a : Addresses "a" "a" := addresses_self (by decide) (by decide)

example : Addresses "a?x=y" "a" ∧ Addresses "x/../a" "a" ∧ Addresses "%61" "a" := by decide +kernel

example : Leads "trash" "trash" := by decide +kernel

end FastBackup
