import Locator.Settings.File

namespace Locator.Settings

theorem read?_defaultText : read? defaultText.toList = some default := by
  decide +kernel

/-- The file that is made states the settings that it is made for. -/
theorem ofBytes_defaultText : ofBytes defaultText.toUTF8 = .ok default := by
  have hdecode : String.fromUTF8? defaultText.toUTF8 = some defaultText := dif_pos defaultText.isValidUTF8
  rw [ofBytes, hdecode]
  simp only [read?_defaultText]

/-- Loading again what a load has left gives the same again. -/
theorem load_load (file : Option ByteArray) : load (some (load file).2) = load file := by
  cases file with
  | none => exact congrArg (·, defaultText.toUTF8) ofBytes_defaultText
  | some bytes => rfl

end Locator.Settings
