/-!
# The built-in commands

The commands of browser tests that every script may use unless its settings name others.
-/

namespace UiScript

/-- The names of the built-in commands. -/
def builtinCommands : List String := [
  "assert", "assert-false", "assert-attribute", "assert-attribute-false", "assert-css", "assert-css-false",
  "assert-count", "assert-count-false", "assert-document-property", "assert-document-property-false",
  "assert-local-storage", "assert-local-storage-false", "assert-position", "assert-position-false",
  "assert-property", "assert-property-false", "assert-size", "assert-size-false", "assert-text",
  "assert-text-false", "assert-variable", "assert-variable-false", "assert-window-property",
  "assert-window-property-false", "call-function", "click", "click-with-offset", "compare-elements-attribute",
  "compare-elements-css", "compare-elements-position", "compare-elements-property", "compare-elements-size",
  "compare-elements-text", "debug", "define-function", "drag-and-drop", "emulate", "expect-failure",
  "fail-on-js-error", "fail-on-request-error", "focus", "geolocation", "go-to", "history-go-back",
  "history-go-forward", "include", "javascript", "move-cursor-to", "pause-on-error", "permissions", "press-key",
  "reload", "screenshot", "screenshot-comparison", "screenshot-on-failure", "scroll-to", "set-attribute",
  "set-css", "set-device-pixel-ratio", "set-font-size", "set-local-storage", "set-property", "set-text",
  "set-timeout", "set-window-size", "show-text", "store-attribute", "store-css", "store-document-property",
  "store-local-storage", "store-position", "store-property", "store-size", "store-text", "store-value",
  "store-window-property", "wait-for", "wait-for-attribute", "wait-for-count", "wait-for-css",
  "wait-for-document-property", "wait-for-false", "wait-for-local-storage", "wait-for-position",
  "wait-for-property", "wait-for-size", "wait-for-text", "wait-for-window-property", "write", "write-into"
]

end UiScript
