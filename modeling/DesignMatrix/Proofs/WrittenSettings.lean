import DesignMatrix.Config.Settings

/-!
# Members that stand for settings

Members that stand for the settings of a configuration, one for each key and in the order of the
keys, stand for the configuration.
-/

namespace DesignMatrix

@[simp] theorem ConfigKey.ofText?_text (key : ConfigKey) : ofText? key.text = some key := by
  cases key <;> decide +kernel

namespace Config

theorem ofMembers?_map {α : Type} {setting? : α → Option (Option (ConfigKey × Setting))}
    {member : ConfigKey × Setting → α} {config : Config}
    (h : ∀ entry ∈ config.settings, setting? (member entry) = some (some entry)) :
    ofMembers? setting? (config.settings.map member) = some config := by
  have read (entries : List (ConfigKey × Setting))
      (h : ∀ entry ∈ entries, setting? (member entry) = some (some entry)) :
      (entries.map member).mapM setting? = some (entries.map some) := by
    induction entries with
    | nil => rfl
    | cons entry entries ih =>
      obtain ⟨head, tail⟩ := List.forall_mem_cons.mp h
      simp [List.mapM_cons, head, ih tail]
  simp [ofMembers?, read _ h, ofSettings?_settings, List.filterMap_map]

end Config

end DesignMatrix
