/-!
# The script of the probe

The script is evaluated in a page of its own and captures nothing.  It filters
the elements of the document by their upper edge, and then reads the computed
families of those that are left.
-/

set_option autoImplicit false

namespace CssPruning.Probe

/-- The lines of the script. -/
def scriptLines : List String := [
  "(function getUsedFonts () \x7b",
  "  var h = window.innerHeight",
  "",
  "  function isElementAboveFold (element) \x7b",
  "    var isElementStyleDefined = typeof element.style !== \x27undefined\x27",
  "    if (isElementStyleDefined) \x7b",
  "      var originalClearStyle = element.style.clear || \x27\x27",
  "      element.style.clear = \x27none\x27",
  "    \x7d",
  "",
  "    var aboveFold = element.getBoundingClientRect().top < h",
  "",
  "    if (isElementStyleDefined) \x7b",
  "      element.style.clear = originalClearStyle",
  "    \x7d",
  "",
  "    return aboveFold",
  "  \x7d",
  "",
  "  return Array.from(document.getElementsByTagName(\x27*\x27))",
  "    .filter(isElementAboveFold)",
  "    .map(function (element) \x7b return window.getComputedStyle(element) \x7d)",
  "    .map(function (style) \x7b return style.fontFamily \x7d)",
  "\x7d)()"]

/-- The script. -/
def script : String := "\n".intercalate scriptLines

end CssPruning.Probe
