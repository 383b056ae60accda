import Mathlib
import XmlScript.Proofs.Except
import XmlScript.Settings

/-!
# Settings over settings

What is put over a tree of settings may be a table, which is merged with the one before, or a single
value at the end of a path. In either case the tree still shows every setting (`Shows`), and the
value that it shows changes only where the same setting is given: an entry of a file gives each
setting the last value that it has for it (`Shows.putEntry`), a single value gives it to its own
setting (`Shows.putValue`). So after all files and all single values a tree shows for every setting
the last value that was given, and the order in which files and values came in between does not
matter (`last_writer_wins`).
-/

namespace XmlScript

namespace Setting

variable {target v : Setting} {key name : String} {entries : List (String × Setting)}

/-! ## Tables -/

/-- The values that entries have for a name. -/
def valuesAt (name : String) (entries : List (String × Setting)) : List Setting :=
  (entries.filter (·.1 = name)).map (·.2)

theorem lookup_cons_eq : ((key, v) :: entries).lookup name =
    if name = key then some v else entries.lookup name := by
  by_cases h : name = key
  · rw [if_pos h, h, List.lookup_cons_self]
  · rw [if_neg h, List.lookup_cons, beq_eq_false_iff_ne.2 h]

theorem lookup_store : (store key v entries).lookup name =
    if name = key then some v else entries.lookup name := by
  induction entries with
  | nil => exact lookup_cons_eq
  | cons entry rest ih =>
    obtain ⟨k, w⟩ := entry
    unfold store
    by_cases hk : k = key
    · rw [if_pos hk, lookup_cons_eq, lookup_cons_eq, hk]
      split <;> rfl
    · rw [if_neg hk, lookup_cons_eq, ih, lookup_cons_eq]
      by_cases hname : name = k
      · rw [if_pos hname, if_neg fun h => hk (hname.symm.trans h), if_pos hname]
      · rw [if_neg hname, if_neg hname]

/-- A value is read back from where it was put, unless it is a table. -/
theorem get?_put_self (hv : ∀ es, v ≠ table es) : (put key target v).get? key = some v := by
  cases v with
  | table es => exact absurd rfl (hv es)
  | null | boolean _ | integer _ | float _ | text _ | list _ =>
    rw [put]
    · exact lookup_store.trans (if_pos rfl)
    · exact nofun

/-- Under all other keys a table has what it had before. -/
theorem get?_put_of_ne (h : fold name ≠ fold key) :
    (put key target v).get? name = target.get? name := by
  cases v with
  | table es =>
    rw [put]
    exact lookup_store.trans (if_neg h)
  | null | boolean _ | integer _ | float _ | text _ | list _ =>
    rw [put]
    · exact lookup_store.trans (if_neg h)
    · exact nofun

theorem get?_put_table (h : target.get? key = some v) :
    (put key target (table entries)).get? key = some (putAll v entries) := by
  rw [put, h]
  exact lookup_store.trans (if_pos rfl)

theorem exists_put (key : String) (target v : Setting) : ∃ es, put key target v = table es := by
  cases v with
  | table es => exact ⟨_, by rw [put]⟩
  | null | boolean _ | integer _ | float _ | text _ | list _ => exact ⟨_, by rw [put]; exact nofun⟩

theorem exists_putAll (entries es : List (String × Setting)) :
    ∃ es', putAll (table es) entries = table es' := by
  induction entries generalizing es with
  | nil => exact ⟨es, by rw [putAll]⟩
  | cons entry rest ih =>
    obtain ⟨es₁, hput⟩ := exists_put entry.1 (table es) entry.2
    obtain ⟨es₂, hall⟩ := ih es₁
    exact ⟨es₂, by rw [putAll, hput, hall]⟩

/-- Of several values for a name the last one stays. -/
theorem get?_putAll {a : Setting} (hname : fold name = name)
    (hkeys : ∀ entry ∈ entries, fold entry.1 = entry.1)
    (hplain : ∀ w ∈ valuesAt name entries, ∀ es, w ≠ table es) (h : target.get? name = some a) :
    (putAll target entries).get? name = some ((valuesAt name entries).getLastD a) := by
  induction entries generalizing target a with
  | nil => rwa [putAll]
  | cons entry rest ih =>
    obtain ⟨k, w⟩ := entry
    have hrest := fun e he => hkeys e (List.mem_cons_of_mem _ he)
    rw [putAll]
    by_cases hk : k = name
    · subst hk
      have hvalues : valuesAt k ((k, w) :: rest) = w :: valuesAt k rest := by
        simp [valuesAt]
      rw [hvalues] at hplain ⊢
      rw [List.getLastD_cons]
      exact ih hrest (fun u hu => hplain u (List.mem_cons_of_mem _ hu))
        (get?_put_self (hplain w (List.mem_cons_self ..)))
    · have hvalues : valuesAt name ((k, w) :: rest) = valuesAt name rest := by
        simp [valuesAt, hk]
      rw [hvalues] at hplain ⊢
      refine ih hrest hplain ?_
      rw [get?_put_of_ne, h]
      rw [hname, hkeys (k, w) (List.mem_cons_self ..)]
      exact fun he => hk he.symm

end Setting

namespace Settings

open Setting (fold readPath valuesAt)

/-! ## The settings one by one -/

/-- One of the settings. -/
inductive Item where
  | declaration | encoding | indent | emit
  deriving DecidableEq, Repr

namespace Item

/-- The table that a setting stands in. -/
def group : Item → String
  | declaration | encoding | indent => "render"
  | emit => "check"

def name : Item → String
  | declaration => "declaration"
  | encoding => "encoding"
  | indent => "indent"
  | emit => "emit"

/-- A setting as it is named on its own. -/
def key (f : Item) : String := f.group ++ "." ++ f.name

/-- What a setting can be. -/
abbrev Value : Item → Type
  | declaration | encoding => Bool
  | indent => Option Nat
  | emit => Emit

/-- The value of a setting that something written stands for. -/
def read? : (f : Item) → Setting → Option f.Value
  | declaration, v | encoding, v => v.toBool?
  | indent, v => (indent? (some v)).toOption
  | emit, .text s => Emit.ofText? (fold s)
  | emit, _ => none

/-- What holds where nothing is said. -/
def initial : Item → Setting
  | declaration => .boolean true
  | encoding => .boolean false
  | indent => .integer 0
  | emit => .text "canonical"

/-- The values that the entries of a file have for a setting. -/
def valuesIn (f : Item) (entries : List (String × Setting)) : List Setting :=
  (valuesAt f.group entries).flatMap fun v => valuesAt f.name v.entries

end Item

def get (s : Settings) : (f : Item) → f.Value
  | .declaration => s.render.declaration
  | .encoding => s.render.encoding
  | .indent => s.render.indent?
  | .emit => s.emit

variable {f g : Item} {tree v : Setting} {values : Item → Setting}

theorem getLastD_append {α : Type} (xs ys : List α) (a : α) :
    (xs ++ ys).getLastD a = ys.getLastD (xs.getLastD a) := by
  induction xs generalizing a with
  | nil => rfl
  | cons x rest ih => rw [List.cons_append, List.getLastD_cons, List.getLastD_cons, ih]

namespace Item

theorem fold_group (f : Item) : fold f.group = f.group := by cases f <;> decide +kernel

theorem fold_name (f : Item) : fold f.name = f.name := by cases f <;> decide +kernel

theorem readPath_key (f : Item) : readPath f.key = some [.key f.group, .key f.name] := by
  cases f <;> decide +kernel

theorem name_injective : Function.Injective Item.name := by
  intro f g h
  cases f <;> cases g <;> first | rfl | exact absurd h (by decide)

theorem key_injective : Function.Injective Item.key := by
  intro f g h
  have hpath := (readPath_key f).symm.trans ((congrArg readPath h).trans (readPath_key g))
  simp only [Option.some.injEq, List.cons.injEq, Setting.Part.key.injEq, and_true] at hpath
  exact name_injective hpath.2

/-- A table stands for no value. -/
theorem ne_table_of_read? (h : (f.read? v).isSome = true) (es : List (String × Setting)) :
    v ≠ .table es := by
  rintro rfl
  cases f <;> cases h

theorem emit?_of_read? {form : Emit} (h : emit.read? v = some form) : emit? v = some form := by
  cases v with
  | text s => exact h
  | null | boolean _ | integer _ | float _ | list _ | table _ => cases h

theorem isSome_initial (f : Item) : (f.read? f.initial).isSome = true := by
  cases f <;> decide +kernel

end Item

/-- A tree has a table for each group of settings and shows these values there. -/
def Shows (tree : Setting) (values : Item → Setting) : Prop :=
  ∀ f : Item, ∃ es, tree.get? f.group = some (.table es) ∧
    (Setting.table es).get? f.name = some (values f)

theorem shows_defaults : Shows defaults Item.initial := by
  intro f
  unfold Setting.get?
  rw [f.fold_group, f.fold_name]
  cases f <;> exact ⟨_, rfl, rfl⟩

/-- Settings are read off such a tree one by one. -/
theorem exists_ofSetting (h : Shows tree values)
    (hvalues : ∀ f : Item, (f.read? (values f)).isSome = true) :
    ∃ settings, ofSetting tree = .ok settings ∧
      ∀ f : Item, f.read? (values f) = some (settings.get f) := by
  obtain ⟨es, hrender, hdeclaration⟩ := h .declaration
  obtain ⟨_, hrender', hencoding⟩ := h .encoding
  obtain rfl := Setting.table.inj (Option.some.inj (hrender.symm.trans hrender'))
  obtain ⟨_, hrender', hindent⟩ := h .indent
  obtain rfl := Setting.table.inj (Option.some.inj (hrender.symm.trans hrender'))
  obtain ⟨cs, hcheck, hemit⟩ := h .emit
  obtain ⟨declaration, hdeclared⟩ := Option.isSome_iff_exists.1 (hvalues .declaration)
  obtain ⟨encoding, hencoded⟩ := Option.isSome_iff_exists.1 (hvalues .encoding)
  obtain ⟨width, hwidth⟩ := Option.isSome_iff_exists.1 (hvalues .indent)
  obtain ⟨form, hform⟩ := Option.isSome_iff_exists.1 (hvalues .emit)
  refine ⟨⟨⟨declaration, encoding, width⟩, form⟩, ?_, ?_⟩
  · have hsection {key : String} {entries : List (String × Setting)}
        (hkey : tree.get? key = some (.table entries)) :
        require key (section? key tree) = .ok (.table entries) := by
      rw [section?, hkey]
      rfl
    have hflag {name : String} {missing b : Bool} {v : Setting} (hv : v.toBool? = some b) :
        flag name missing (some v) = .ok b := by
      rw [flag, hv]
      rfl
    refine bind_eq_ok_iff.2 ⟨_, hsection hrender, bind_eq_ok_iff.2 ⟨declaration, ?_, ?_⟩⟩
    · exact (congrArg (flag _ true) hdeclaration).trans (hflag hdeclared)
    refine bind_eq_ok_iff.2 ⟨encoding, ?_, bind_eq_ok_iff.2 ⟨width, ?_, ?_⟩⟩
    · exact (congrArg (flag _ false) hencoding).trans (hflag hencoded)
    · exact (congrArg indent? hindent).trans (toOption_eq_some_iff.1 hwidth)
    refine bind_eq_ok_iff.2 ⟨_, hsection hcheck, bind_eq_ok_iff.2 ⟨form, ?_, rfl⟩⟩
    show require "emit" (((Setting.table cs).get? Item.emit.name).bind emit?) = .ok form
    rw [hemit, Option.bind_some, Item.emit?_of_read? hform]
    rfl
  · intro f
    cases f with
    | declaration => exact hdeclared
    | encoding => exact hencoded
    | indent => exact hwidth
    | emit => exact hform

/-! ## Steps -/

/-- An entry of a file that gives settings, if any, values that they can have. Its key is no path,
and all keys are in small letters. -/
structure IsLayerEntry (entry : String × Setting) : Prop where
  isKey : readPath entry.1 = some [.key entry.1]
  isFolded : fold entry.1 = entry.1
  suits : ∀ f : Item, entry.1 = f.group → ∃ es, entry.2 = .table es ∧
    ∀ inner ∈ es, fold inner.1 = inner.1 ∧
      (inner.1 = f.name → (f.read? inner.2).isSome = true)

namespace Shows

/-- An entry of a file gives each setting the last value that it has for it. -/
theorem putEntry {entry : String × Setting} (h : Shows tree values) (he : IsLayerEntry entry) :
    ∃ tree', Loader.putEntry tree entry = .ok tree' ∧
      Shows tree' fun f => (f.valuesIn [entry]).getLastD (values f) := by
  obtain ⟨key, v⟩ := entry
  refine ⟨Setting.put key tree v, ?_, fun f => ?_⟩
  · unfold Loader.putEntry
    rw [he.isKey]
    rfl
  · obtain ⟨es, hgroup, hname⟩ := h f
    by_cases hkey : key = f.group
    · obtain ⟨incoming, rfl, hincoming⟩ := he.suits f hkey
      subst hkey
      obtain ⟨es', hall⟩ := Setting.exists_putAll incoming es
      have hvalues : f.valuesIn [(f.group, .table incoming)] = valuesAt f.name incoming := by
        simp [Item.valuesIn, valuesAt, Setting.entries]
      refine ⟨es', by rw [Setting.get?_put_table hgroup, hall], ?_⟩
      simp only [hvalues, ← hall]
      refine Setting.get?_putAll f.fold_name (fun e he => (hincoming e he).1) (fun w hw => ?_) hname
      obtain ⟨e, he, rfl⟩ := List.mem_map.1 hw
      obtain ⟨hmem, heq⟩ := List.mem_filter.1 he
      exact Item.ne_table_of_read? ((hincoming e hmem).2 (of_decide_eq_true heq))
    · have hvalues : f.valuesIn [(key, v)] = [] := by
        simp [Item.valuesIn, valuesAt, hkey]
      have hne : fold f.group ≠ fold key := by
        rw [f.fold_group, he.isFolded]
        exact fun h => hkey h.symm
      refine ⟨es, by rw [Setting.get?_put_of_ne hne, hgroup], ?_⟩
      simp only [hvalues, hname, List.getLastD_nil]

/-- The entries of files are put over a tree one after the other. -/
theorem putEntries {entries : List (String × Setting)} (h : Shows tree values)
    (he : ∀ entry ∈ entries, IsLayerEntry entry) :
    ∃ tree', entries.foldlM Loader.putEntry tree = .ok tree' ∧
      Shows tree' fun f => (f.valuesIn entries).getLastD (values f) := by
  induction entries generalizing tree values with
  | nil => exact ⟨tree, rfl, h⟩
  | cons entry rest ih =>
    obtain ⟨tree₁, hput, h₁⟩ := h.putEntry (he entry (List.mem_cons_self ..))
    obtain ⟨tree₂, hrest, h₂⟩ := ih h₁ fun e hmem => he e (List.mem_cons_of_mem _ hmem)
    refine ⟨tree₂, ?_, fun f => ?_⟩
    · rw [foldlM_cons_eq, hput]
      exact hrest
    · obtain ⟨es, hgroup, hname⟩ := h₂ f
      refine ⟨es, hgroup, ?_⟩
      have hvalues : f.valuesIn (entry :: rest) = f.valuesIn [entry] ++ f.valuesIn rest := by
        rw [Item.valuesIn, valuesAt, ← List.singleton_append, List.filter_append, List.map_append,
          List.flatMap_append]
        rfl
      simp only [hname, hvalues, getLastD_append]

/-- A value at the end of the path of a setting is that of the setting, and no other changes. -/
theorem putValue (h : Shows tree values) (f : Item) (hv : (f.read? v).isSome = true) :
    ∃ tree', Loader.putValue tree [.key f.group, .key f.name] v = .ok tree' ∧
      Shows tree' fun g => if g = f then v else values g := by
  obtain ⟨es, hgroup, -⟩ := h f
  obtain ⟨es', hput⟩ := Setting.exists_put f.name (.table es) v
  refine ⟨.table (Setting.store (fold f.group) (.table es') tree.entries), ?_, fun g => ?_⟩
  · simp only [Loader.putValue, Setting.putAt?, hgroup, Option.getD_some, hput, Option.map_some]
  · obtain ⟨gs, hg, hname⟩ := h g
    have hstored : (Setting.table (Setting.store (fold f.group) (.table es') tree.entries)).get?
        g.group = if g.group = f.group then some (.table es') else tree.get? g.group := by
      refine Setting.lookup_store.trans ?_
      rw [g.fold_group, f.fold_group, Setting.get?, g.fold_group]
    by_cases hsame : g.group = f.group
    · obtain rfl := Setting.table.inj (Option.some.inj (hgroup.symm.trans (hsame ▸ hg)))
      refine ⟨es', by rw [hstored, if_pos hsame], ?_⟩
      rw [← hput]
      by_cases hgf : g = f
      · subst hgf
        rw [Setting.get?_put_self (Item.ne_table_of_read? hv)]
        exact congrArg some (if_pos rfl).symm
      · have hne : fold g.name ≠ fold f.name := by
          rw [g.fold_name, f.fold_name]
          exact fun h => hgf (Item.name_injective h)
        rw [Setting.get?_put_of_ne hne, hname]
        exact congrArg some (if_neg hgf).symm
    · refine ⟨gs, by rw [hstored, if_neg hsame, hg], ?_⟩
      have hgf : g ≠ f := fun h => hsame (congrArg Item.group h)
      rw [hname]
      exact congrArg some (if_neg hgf).symm

end Shows

end Settings

namespace Loader

open Settings (Item IsLayerEntry Shows)

/-! ## Calls -/

/-- What may be asked of a loader. -/
inductive Call where
  | file (source : SettingsFile)
  | override (key : String) (v : Setting)

namespace Call

def run (l : Loader) : Call → Except SettingsError Loader
  | .file source => .ok (l.withFile source)
  | .override key v => l.override key v

def file? : Call → Option SettingsFile
  | .file source => some source
  | .override _ _ => none

/-- The path of a single value, and the value. -/
def override? : Call → Option (List Setting.Part × Setting)
  | .file _ => none
  | .override key v => (Setting.readPath key).map fun path => (path, v)

/-- The single value that is given to a setting. -/
def valueFor? (f : Item) : Call → Option Setting
  | .file _ => none
  | .override key v => if key = f.key then some v else none

/-- The entries of a file, none where there is no file. -/
def entries : Call → List (String × Setting)
  | .file source => (fileEntries source).toOption.getD []
  | .override _ _ => []

/-- A file that can be read, or is not needed, and gives settings suitable values, or one such value
for one of the settings. -/
def IsWellTyped : Call → Prop
  | .file source =>
    ∃ entries, fileEntries source = .ok entries ∧ ∀ entry ∈ entries, IsLayerEntry entry
  | .override key v => ∃ f : Item, key = f.key ∧ (f.read? v).isSome = true

end Call

/-- The loader after a sequence of calls. -/
def ofCalls (calls : List Call) : Except SettingsError Loader := calls.foldlM Call.run {}

end Loader

namespace Settings.Item

open Loader (Call)

/-- The single values that a setting has been given. -/
def overridden (f : Item) (calls : List Call) : List Setting :=
  calls.filterMap (·.valueFor? f)

/-- The values that files have for a setting. -/
def layered (f : Item) (calls : List Call) : List Setting := f.valuesIn (calls.flatMap Call.entries)

/-- The last single value that a setting was given; without any the last one that a file has for it,
and what holds from the start where there is none either. -/
def chosen (f : Item) (calls : List Call) : Setting :=
  (f.overridden calls).getLastD ((f.layered calls).getLastD f.initial)

end Settings.Item

namespace Loader

open Settings (Item IsLayerEntry Shows)

variable {calls : List Call} {l l' : Loader}

/-- Files and single values are kept apart, each in their order. -/
theorem eq_of_foldlM (h : calls.foldlM Call.run l = .ok l') :
    l' = { files := l.files ++ calls.filterMap Call.file?,
           overrides := l.overrides ++ calls.filterMap Call.override? } := by
  induction calls generalizing l with
  | nil =>
    cases h
    simp
  | cons call rest ih =>
    rw [foldlM_cons_eq] at h
    obtain ⟨l₁, hone, hrest⟩ := bind_eq_ok_iff.1 h
    rw [ih hrest]
    cases call with
    | file source =>
      cases hone
      simp [withFile, List.filterMap_cons, Call.file?, Call.override?]
    | override key v =>
      change l.override key v = .ok l₁ at hone
      unfold override at hone
      split at hone
      next path hpath =>
        cases hone
        simp [List.filterMap_cons, Call.file?, Call.override?, hpath]
      next => cases hone

theorem exists_foldlM (h : ∀ call ∈ calls, call.IsWellTyped) (l : Loader) :
    ∃ l', calls.foldlM Call.run l = .ok l' := by
  induction calls generalizing l with
  | nil => exact ⟨l, rfl⟩
  | cons call rest ih =>
    obtain ⟨l₁, hone⟩ : ∃ l₁, Call.run l call = .ok l₁ := by
      cases call with
      | file source => exact ⟨_, rfl⟩
      | override key v =>
        obtain ⟨f, rfl, -⟩ := h _ (List.mem_cons_self ..)
        refine ⟨{ l with overrides := l.overrides ++ [([.key f.group, .key f.name], v)] }, ?_⟩
        show l.override f.key v = _
        rw [override, f.readPath_key]
    obtain ⟨l₂, hrest⟩ := ih (fun c hc => h c (List.mem_cons_of_mem _ hc)) l₁
    exact ⟨l₂, by rw [foldlM_cons_eq, hone]; exact hrest⟩

/-- All files are read, and their entries stand in the order of the calls. -/
theorem exists_layers (h : ∀ call ∈ calls, call.IsWellTyped) :
    ∃ layers, (calls.filterMap Call.file?).mapM fileEntries = .ok layers ∧
      layers.flatten = calls.flatMap Call.entries ∧
      ∀ entry ∈ layers.flatten, IsLayerEntry entry := by
  induction calls with
  | nil => exact ⟨[], rfl, rfl, nofun⟩
  | cons call rest ih =>
    obtain ⟨layers, hlayers, hentries, hsuit⟩ := ih fun c hc => h c (List.mem_cons_of_mem _ hc)
    cases call with
    | file source =>
      obtain ⟨entries, hfile, hone⟩ := h _ (List.mem_cons_self ..)
      refine ⟨entries :: layers, ?_, ?_, fun entry he => ?_⟩
      · show (source :: rest.filterMap Call.file?).mapM fileEntries = _
        rw [mapM_cons_eq, hfile, hlayers]
        rfl
      · rw [List.flatten_cons, hentries, List.flatMap_cons, Call.entries, hfile]
        rfl
      · rw [List.flatten_cons] at he
        exact (List.mem_append.1 he).elim (hone entry) (hsuit entry)
    | override key v => exact ⟨layers, hlayers, hentries.trans (List.nil_append _).symm, hsuit⟩

/-- Single values are put into a tree one after the other, each at its own setting. -/
theorem putValues {tree : Setting} {values : Item → Setting} (hs : Shows tree values)
    (h : ∀ call ∈ calls, call.IsWellTyped) :
    ∃ tree', (calls.filterMap Call.override?).foldlM
        (fun tree (path, v) => putValue tree path v) tree = .ok tree' ∧
      Shows tree' fun f => (f.overridden calls).getLastD (values f) := by
  induction calls generalizing tree values with
  | nil => exact ⟨tree, rfl, hs⟩
  | cons call rest ih =>
    have hrest := fun c hc => h c (List.mem_cons_of_mem _ hc)
    cases call with
    | file source =>
      obtain ⟨tree₁, hput, h₁⟩ := ih hs hrest
      exact ⟨tree₁, hput, h₁⟩
    | override key v =>
      obtain ⟨f, rfl, hv⟩ := h _ (List.mem_cons_self ..)
      obtain ⟨tree₁, hput, h₁⟩ := hs.putValue f hv
      obtain ⟨tree₂, hall, h₂⟩ := ih h₁ hrest
      have hcall : (Call.override f.key v).override? = some ([.key f.group, .key f.name], v) := by
        rw [Call.override?, f.readPath_key]
        rfl
      refine ⟨tree₂, ?_, fun g => ?_⟩
      · rw [List.filterMap_cons_some hcall, foldlM_cons_eq]
        simp only [hput]
        exact hall
      · obtain ⟨es, hgroup, hname⟩ := h₂ g
        refine ⟨es, hgroup, hname.trans (congrArg some ?_)⟩
        by_cases hgf : g = f
        · have hgiven : g.overridden (.override f.key v :: rest) = v :: g.overridden rest :=
            List.filterMap_cons_some (if_pos (congrArg Item.key hgf.symm))
          simp only [hgiven, if_pos hgf, List.getLastD_cons]
        · have hgiven : g.overridden (.override f.key v :: rest) = g.overridden rest :=
            List.filterMap_cons_none (if_neg fun he => hgf (Item.key_injective he.symm))
          simp only [hgiven, if_neg hgf]

theorem isSome_chosen (h : ∀ call ∈ calls, call.IsWellTyped)
    (hentries : ∀ entry ∈ calls.flatMap Call.entries, IsLayerEntry entry) (f : Item) :
    (f.read? (f.chosen calls)).isSome = true := by
  have hlayered : ∀ v ∈ f.layered calls, (f.read? v).isSome = true := by
    intro v hv
    obtain ⟨w, hw, hv⟩ := List.mem_flatMap.1 hv
    obtain ⟨entry, hentry, rfl⟩ := List.mem_map.1 hw
    obtain ⟨hmem, hgroup⟩ := List.mem_filter.1 hentry
    obtain ⟨es, hes, hsuit⟩ := (hentries entry hmem).suits f (of_decide_eq_true hgroup)
    rw [hes] at hv
    obtain ⟨inner, hinner, rfl⟩ := List.mem_map.1 hv
    obtain ⟨hmem, hname⟩ := List.mem_filter.1 hinner
    exact (hsuit inner hmem).2 (of_decide_eq_true hname)
  have hoverridden : ∀ v ∈ f.overridden calls, (f.read? v).isSome = true := by
    intro v hv
    obtain ⟨call, hcall, hv⟩ := List.mem_filterMap.1 hv
    cases call with
    | file source => cases hv
    | override key w =>
      obtain ⟨g, rfl, hw⟩ := h _ hcall
      obtain ⟨hkey, hwv⟩ := Option.ite_none_right_eq_some.1 hv
      obtain rfl := Option.some.inj hwv
      rwa [← Item.key_injective hkey]
  have hlast {vs : List Setting} {a : Setting} (hvs : ∀ v ∈ vs, (f.read? v).isSome = true)
      (ha : (f.read? a).isSome = true) : (f.read? (vs.getLastD a)).isSome = true :=
    (List.mem_cons.1 List.getLastD_mem_cons).elim (fun he => he ▸ ha) (hvs _)
  exact hlast hoverridden (hlast hlayered f.isSome_initial)

/-- Whatever files and single values a loader is given, and in whatever order files and values come
in between: if all of them suit, the settings can be built, and each of the four is what the last
single value for it stands for, without one the last value that a file has for it, and without both
what holds from the start. A file that is needed and is not there makes the settings fail, whatever
else is given. -/
theorem last_writer_wins (calls : List Call) :
    ((∀ call ∈ calls, call.IsWellTyped) → ∃ loader settings, ofCalls calls = .ok loader ∧
      loader.build = .ok settings ∧
      ∀ f : Item, f.read? (f.chosen calls) = some (settings.get f)) ∧
    ∀ loader source, ofCalls calls = .ok loader → .file source ∈ calls → source.text? = none →
      source.isOptional = false → ∃ e, loader.build = .error e := by
  refine ⟨fun h => ?_, fun loader source hloader hsource htext hneeded => ?_⟩
  · obtain ⟨loader, hloader⟩ := exists_foldlM h {}
    obtain ⟨layers, hlayers, hentries, hsuit⟩ := exists_layers h
    obtain ⟨tree, hfiles, hs⟩ := Settings.shows_defaults.putEntries hsuit
    obtain ⟨tree', hvalues, hs'⟩ := putValues hs h
    rw [hentries] at hs' hsuit
    obtain ⟨settings, hsettings, hget⟩ := Settings.exists_ofSetting hs' (isSome_chosen h hsuit)
    refine ⟨loader, settings, hloader, ?_, hget⟩
    rw [eq_of_foldlM hloader]
    exact bind_eq_ok_iff.2 ⟨layers, hlayers, bind_eq_ok_iff.2 ⟨tree, hfiles,
      bind_eq_ok_iff.2 ⟨tree', hvalues, hsettings⟩⟩⟩
  · have hmissing : fileEntries source = .error .missingFile := by
      rw [fileEntries, htext, hneeded]
      rfl
    have hmem : source ∈ loader.files := by
      rw [eq_of_foldlM hloader]
      exact List.mem_filterMap.2 ⟨_, hsource, rfl⟩
    cases hbuild : loader.build with
    | error e => exact ⟨e, rfl⟩
    | ok settings =>
      obtain ⟨layers, hlayers, -⟩ := bind_eq_ok_iff.1 hbuild
      obtain ⟨entries, -, hentries⟩ := exists_of_forall₂_of_mem (mapM_eq_ok_iff.1 hlayers).flip hmem
      rw [hmissing] at hentries
      cases hentries

/-- A single value comes before two files and another one after the first of them, which sets it
too; a file that is not needed is not there, and one that is needed is not there either. -/
theorem last_writer_wins_interleaved :
    let calls : List Call :=
      [.override "render.indent" (.integer 4),
        .file { text? := some "render.indent = 2\nrender.declaration = false\n" },
        .override "render.indent" (.text "3"), .file { text? := none, isOptional := true },
        .file { text? := some "[check]\nemit = \"JSON\"\n[render]\ndeclaration = 0" }]
    (∀ call ∈ calls, call.IsWellTyped) ∧
      (∃ loader settings, ofCalls calls = .ok loader ∧ loader.build = .ok settings ∧
        ∀ f : Item, f.read? (f.chosen calls) = some (settings.get f)) ∧
      Item.indent.read? (Item.indent.chosen calls) = some (some 3) ∧
      Item.declaration.read? (Item.declaration.chosen calls) = some false ∧
      Item.emit.read? (Item.emit.chosen calls) = some .json ∧
      ∃ loader e, ofCalls (calls ++ [.file { text? := none }]) = .ok loader ∧
        loader.build = .error e := by
  intro calls
  have hentry {group : String} {es : List (String × Setting)}
      (hkey : Setting.readPath group = some [.key group] ∧ Setting.fold group = group)
      (hes : ∀ f ∈ [Item.declaration, .encoding, .indent, .emit], group = f.group →
        ∀ inner ∈ es, Setting.fold inner.1 = inner.1 ∧
          (inner.1 = f.name → (f.read? inner.2).isSome = true)) :
      IsLayerEntry (group, .table es) :=
    ⟨hkey.1, hkey.2, fun f hf => ⟨es, rfl, hes f (by cases f <;> decide) hf⟩⟩
  have hcalls : ∀ call ∈ calls, call.IsWellTyped := by
    simp only [calls, List.forall_mem_cons]
    refine ⟨⟨.indent, by decide +kernel, rfl⟩, ⟨_, by cbv, ?_⟩, ⟨.indent, by decide +kernel, ?_⟩,
      ⟨[], rfl, nofun⟩, ⟨_, by cbv, ?_⟩, nofun⟩
    · simp only [List.forall_mem_cons]
      exact ⟨hentry (by decide +kernel) (by decide +kernel), nofun⟩
    · decide +kernel
    · simp only [List.forall_mem_cons]
      exact ⟨hentry (by decide +kernel) (by decide +kernel),
        hentry (by decide +kernel) (by decide +kernel), nofun⟩
  have hread : calls.flatMap Call.entries =
      [("render", .table [("indent", .integer 2), ("declaration", .boolean false)]),
        ("check", .table [("emit", .text "JSON")]),
        ("render", .table [("declaration", .integer 0)])] := by
    cbv
  refine ⟨hcalls, (last_writer_wins calls).1 hcalls, ?_, ?_, ?_, ?_⟩
  · rw [Item.chosen, Item.layered, hread]
    decide +kernel
  · rw [Item.chosen, Item.layered, hread]
    decide +kernel
  · rw [Item.chosen, Item.layered, hread]
    decide +kernel
  obtain ⟨loader, hloader⟩ := exists_foldlM hcalls {}
  have hmore : ofCalls (calls ++ [.file { text? := none }]) =
      .ok (loader.withFile { text? := none }) := by
    rw [ofCalls, List.foldlM_append, hloader]
    rfl
  obtain ⟨e, he⟩ := (last_writer_wins _).2 _ _ hmore
    (List.mem_append_right _ (List.mem_singleton_self _)) rfl rfl
  exact ⟨_, e, hmore, he⟩

end Loader

end XmlScript
