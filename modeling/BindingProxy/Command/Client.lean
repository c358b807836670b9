/-!
# The client module

The JavaScript module with the proxy types that instrumented scripts import.
-/

namespace BindingProxy

/-- The lines of the client module. -/
def clientLines : List String :=
  [
    "'use strict';",
    "",
    "// Proxy runtime loaded by instrumented programs:",
    "//   const Proxy = require('jspector');",
    "//",
    "// Every read, write and call is reported to the registered listeners, or to",
    "// the console when none are registered.",
    "",
    "const listeners = [];",
    "",
    "function report(event, details) \x7b",
    "  if (listeners.length === 0) \x7b",
    "    console.log('[jspector]', event, ...details);",
    "    return;",
    "  \x7d",
    "  for (const listener of listeners) \x7b",
    "    listener(event, details);",
    "  \x7d",
    "\x7d",
    "",
    "function subscribe(listener) \x7b",
    "  listeners.push(listener);",
    "  return function unsubscribe() \x7b",
    "    const index = listeners.indexOf(listener);",
    "    if (index !== -1) \x7b",
    "      listeners.splice(index, 1);",
    "    \x7d",
    "  \x7d;",
    "\x7d",
    "",
    "// Deep copy that keeps prototypes and cycles. Functions are shared.",
    "function cloneValue(value, seen = new Map()) \x7b",
    "  if (value === null || typeof value !== 'object') \x7b",
    "    return value;",
    "  \x7d",
    "  if (seen.has(value)) \x7b",
    "    return seen.get(value);",
    "  \x7d",
    "  if (value instanceof Date) \x7b",
    "    return new Date(value.getTime());",
    "  \x7d",
    "  if (value instanceof RegExp) \x7b",
    "    return new RegExp(value.source, value.flags);",
    "  \x7d",
    "  const copy = Array.isArray(value) ? [] : Object.create(Object.getPrototypeOf(value));",
    "  seen.set(value, copy);",
    "  for (const key of Object.keys(value)) \x7b",
    "    copy[key] = cloneValue(value[key], seen);",
    "  \x7d",
    "  return copy;",
    "\x7d",
    "",
    "class Variable \x7b",
    "  // The initial value is copied; later changes made through the caller's",
    "  // own reference are not seen here.",
    "  constructor(initialValue) \x7b",
    "    this.value = cloneValue(initialValue);",
    "  \x7d",
    "",
    "  get() \x7b",
    "    report('get', [this.value]);",
    "    return this.value;",
    "  \x7d",
    "",
    "  set(value) \x7b",
    "    report('set', [this.value, value]);",
    "    this.value = value;",
    "  \x7d",
    "\x7d",
    "",
    "// Returned from a constructor, so `new Function(fn)` evaluates to the wrapper.",
    "function ProxyFunction(target) \x7b",
    "  const name = target.name || '<anonymous>';",
    "  const wrapper = function (...args) \x7b",
    "    report('call', [name, args]);",
    "    return target.apply(this, args);",
    "  \x7d;",
    "  Object.defineProperty(wrapper, 'name', \x7b value: name \x7d);",
    "  Object.defineProperty(wrapper, 'length', \x7b value: target.length \x7d);",
    "  return wrapper;",
    "\x7d",
    "",
    "module.exports = \x7b",
    "  Variable,",
    "  Function: ProxyFunction,",
    "  subscribe,",
    "\x7d;"]

/-- The text of the client module; every line ends with a line feed. -/
def clientSource : String := String.join (clientLines.map (· ++ "\n"))

end BindingProxy
